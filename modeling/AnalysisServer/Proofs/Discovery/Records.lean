import AnalysisServer.Discovery.Records
import AnalysisServer.Proofs.Path.Order

namespace AnalysisServer

open List

namespace FileSet

def Distinct (s : FileSet) : Prop :=
  s.records.Pairwise fun r r' ↦ r.path.same r'.path = false

structure Keyed (s : FileSet) : Prop where
  ascending : PathMap.Ascending s.entries
  keys : (PathMap.keys s.entries).Perm s.order

variable {s : FileSet} {records : List FileRecord} {base : Path}

namespace Keyed

theorem contains_iff (h : s.Keyed) (p : Path) :
    PathMap.contains p s.entries = true ↔ ∃ q ∈ s.order, p.same q = true := by
  rw [PathMap.contains, any_eq_true]
  constructor
  · rintro ⟨e, he, hsame⟩
    exact ⟨e.1, h.keys.mem_iff.mp (mem_map_of_mem he), Path.same_iff.mpr (Path.same_iff.mp hsame).symm⟩
  · rintro ⟨q, hq, hsame⟩
    obtain ⟨e, he, rfl⟩ := mem_map.mp (h.keys.mem_iff.mpr hq)
    exact ⟨e, he, Path.same_iff.mpr (Path.same_iff.mp hsame).symm⟩

theorem addRecord (h : s.Keyed) (r : FileRecord) : (s.addRecord r).Keyed := by
  refine ⟨h.ascending.insert _ _, ?_⟩
  simp only [FileSet.addRecord]
  split
  · rename_i hc
    rw [PathMap.keys_insert_of_contains h.ascending hc]
    exact h.keys
  · rename_i hc
    have hnew : ∀ e ∈ s.entries, r.path.same e.1 = false := fun e he ↦
      Path.not_same_symm (Bool.eq_false_iff.mpr fun hsame ↦ hc (any_eq_true.mpr ⟨e, he, hsame⟩))
    exact ((PathMap.perm_insert hnew).map _).trans ((h.keys.cons _).trans (perm_append_singleton _ _).symm)

/-- What further records make of a set: new paths come last, and each path has the last record for it. -/
theorem foldl_addRecord (h : s.Keyed) (rest : List FileRecord) :
    (rest.foldl FileSet.addRecord s).Keyed ∧ (rest.foldl FileSet.addRecord s).baseDir = s.baseDir ∧
      (rest.foldl FileSet.addRecord s).order = List.eraseDupsBy.loop Path.same (rest.map (·.path)) s.order.reverse ∧
      ∀ p, (rest.foldl FileSet.addRecord s).get? p = (rest.findRev? (·.path.same p)).or (s.get? p) := by
  induction rest generalizing s with
  | nil => exact ⟨h, rfl, by simp [List.eraseDupsBy.loop], fun p ↦ rfl⟩
  | cons r rest ih =>
    obtain ⟨hkeyed, hbase, horder, hget⟩ := ih (h.addRecord r)
    refine ⟨hkeyed, hbase, horder.trans ?_, fun p ↦ (hget p).trans ?_⟩
    · have hknown : s.order.reverse.any r.path.same = PathMap.contains r.path s.entries := by
        rw [Bool.eq_iff_iff, h.contains_iff, any_reverse, any_eq_true]
      rw [map_cons, List.eraseDupsBy.loop, hknown, FileSet.addRecord]
      cases PathMap.contains r.path s.entries with
      | true => rfl
      | false => simp
    · have hstep : (s.addRecord r).get? p = if r.path.same p then some r else s.get? p :=
        PathMap.get?_insert ..
      rw [hstep, List.findRev?_eq_find?_reverse, List.findRev?_eq_find?_reverse, reverse_cons, List.find?_append,
        Option.or_assoc]
      cases hr : r.path.same p <;> simp [hr]

theorem apart (h : s.Keyed) : s.order.Pairwise fun p q ↦ p.same q = false :=
  (h.keys.pairwise_iff Path.not_same_symm).mp (pairwise_map.mpr (h.ascending.imp PathMap.not_same_of_order))

theorem records_eq (h : s.Keyed) : s.records.map some = s.order.map s.get? := by
  have hfound : ∀ o ∈ s.order.map s.get?, o.isSome = true := by
    intro o ho
    obtain ⟨p, hp, rfl⟩ := mem_map.mp ho
    rw [FileSet.get?, PathMap.get?, Option.isSome_map, isSome_find?]
    exact (h.contains_iff p).mpr ⟨p, hp, Path.same_iff.mpr rfl⟩
  rw [FileSet.records, map_filterMap_some_eq_filter_map_isSome]
  exact filter_eq_self.mpr hfound

end Keyed

theorem ofRecords_spec (base : Path) (records : List FileRecord) :
    (ofRecords base records).Keyed ∧ (ofRecords base records).baseDir = base ∧
      (ofRecords base records).order = (records.map (·.path)).eraseDupsBy Path.same ∧
      ∀ p, (ofRecords base records).get? p = records.findRev? (·.path.same p) := by
  have hnew : ({ baseDir := base } : FileSet).Keyed := ⟨.nil, .nil⟩
  obtain ⟨hkeyed, hbase, horder, hget⟩ := hnew.foldl_addRecord records
  exact ⟨hkeyed, hbase, horder, fun p ↦ (hget p).trans Option.or_none⟩

theorem distinct_ofRecords (base : Path) (records : List FileRecord) : (ofRecords base records).Distinct := by
  obtain ⟨hkeyed, -, -, hget⟩ := ofRecords_spec base records
  refine hkeyed.apart.filterMap _ fun p q hne r hr r' hr' ↦ ?_
  have hp := List.find?_some (List.findRev?_eq_find?_reverse ▸ (hget p).symm.trans hr)
  have hq := List.find?_some (List.findRev?_eq_find?_reverse ▸ (hget q).symm.trans hr')
  rw [Path.not_same_iff] at hne ⊢
  rwa [Path.same_iff.mp hp, Path.same_iff.mp hq]

theorem records_ofRecords (h : records.Pairwise fun r r' ↦ r.path.same r'.path = false) :
    (ofRecords base records).records = records := by
  obtain ⟨hkeyed, -, horder, hget⟩ := ofRecords_spec base records
  have hall {ps : List Path} (hps : ps.Pairwise fun p q ↦ p.same q = false) : ps.eraseDupsBy Path.same = ps := by
    induction ps with
    | nil => rfl
    | cons p ps ih =>
      obtain ⟨hp, hps⟩ := pairwise_cons.mp hps
      rw [eraseDupsBy_cons, filter_eq_self.mpr fun q hq ↦ decide_eq_true (Path.not_same_symm (hp q hq)), ih hps]
  have hself : ∀ r ∈ records, (ofRecords base records).get? r.path = some r := by
    intro r hr
    have hapart : (records.reverse.map fun r ↦ (r.path, r)).Pairwise fun e e' ↦ e.1.same e'.1 = false :=
      pairwise_map.mpr (pairwise_reverse.mpr (h.imp Path.not_same_symm))
    have hlast := PathMap.get?_of_mem hapart (mem_map_of_mem (mem_reverse.mpr hr))
    rw [PathMap.get?, List.find?_map, Option.map_map] at hlast
    simpa [hget, Function.comp_def] using hlast
  have hrecords := hkeyed.records_eq
  rw [horder, hall (pairwise_map.mpr h), map_map] at hrecords
  exact (map_inj_right fun _ _ ↦ Option.some.inj).mp (hrecords.trans (map_congr_left hself))

end FileSet

/-- Whatever was set before, the files set now are read back: each path once, where it first came, with the
last record that has it. -/
theorem FilesCache.one_record_per_path (base : Path) (records : List FileRecord) :
    ∃ s : FileSet, (∀ c : FilesCache, (c.setFiles base records).read = .ok s) ∧ s.baseDir = base ∧
      s.filenames.Pairwise (fun p q ↦ p.same q = false) ∧
      s.filenames = (records.map (·.path)).eraseDupsBy Path.same ∧
      (PathMap.keys s.entries).Perm s.filenames ∧
      s.filesCount = s.filenames.length ∧ s.filesCount = s.entries.length ∧
      s.records.map some = s.filenames.map (fun p ↦ records.findRev? (·.path.same p)) ∧
      ∀ p, s.get? p = records.findRev? (·.path.same p) := by
  obtain ⟨hkeyed, hbase, horder, hget⟩ := FileSet.ofRecords_spec base records
  refine ⟨.ofRecords base records, fun _ ↦ rfl, hbase, hkeyed.apart, horder, hkeyed.keys, rfl, ?_, ?_, hget⟩
  · exact hkeyed.keys.length_eq.symm.trans (length_map _)
  · exact hkeyed.records_eq.trans (map_congr_left fun p _ ↦ hget p)

end AnalysisServer
