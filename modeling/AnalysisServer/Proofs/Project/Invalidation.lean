import AnalysisServer.Proofs.Project.KeySets

namespace AnalysisServer

open List

namespace Cache

variable {K V : Type} [DecidableEq K] {c : Cache K V}

theorem Settled.size_unlink (h : c.Settled) (k : K) :
    (c.unlink k).size + (if (c.slotOf? k).isSome then 1 else 0) = c.size := by
  rw [(h.unlink k).size_eq, h.size_eq, slotOf?, Cache.unlink]
  have hnodup := h.keyed.nodup
  revert hnodup
  induction c.index with
  | nil => exact fun _ ↦ rfl
  | cons e es ih =>
    intro hnodup
    rw [map_cons, nodup_cons] at hnodup
    by_cases he : e.1 = k
    · have hrest : es.filter (fun e ↦ !(e.1 == k)) = es := by
        refine filter_eq_self.mpr fun e' he' ↦ ?_
        have hne : e'.1 ≠ k := fun h ↦ hnodup.1 (he ▸ h ▸ mem_map_of_mem he')
        simpa using hne
      simp [he, hrest]
    · have hbeq : (k == e.1) = false := beq_false_of_ne (Ne.symm he)
      rw [filter_cons_of_pos (by simpa using he), lookup_cons, hbeq, length_cons, length_cons, ← ih hnodup.2]
      exact Nat.add_right_comm _ _ _

end Cache

namespace Registry

def Around (disk : Disk) (path key : Path) : Prop :=
  key.parent?.any (programKey disk path).startsWith = true

instance (disk : Disk) (path key : Path) : Decidable (Around disk path key) :=
  inferInstanceAs (Decidable (_ = true))

section

variable [Digest] {r : Registry} {disk : Disk} {classifier : Classifier} {path k : Path} {id : String}

omit [Digest] in
theorem size_invalidateContaining (h : r.cache.Settled) (disk : Disk) (path : Path) :
    (r.invalidateContaining disk path).2.size + (r.invalidateContaining disk path).1 = r.size := by
  rw [invalidateContaining, ← Nat.add_zero r.size]
  generalize r.keysAround (programKey disk path) = keys
  generalize 0 = n
  induction keys generalizing r n with
  | nil => rfl
  | cons key keys ih =>
    have hsize := h.size_unlink (programKey disk key)
    refine (ih (h.unlink (programKey disk key)) _).trans ?_
    show (r.cache.unlink (programKey disk key)).size +
      (if (r.cache.slotOf? (programKey disk key)).isSome then n + 1 else n) = r.cache.size + n
    rw [← hsize]
    split <;> omega

omit [Digest] in
theorem mem_ids_invalidateContaining : (id, k) ∈ (r.invalidateContaining disk path).2.ids ↔
    (id, k) ∈ r.ids ∧ ∀ key ∈ r.keysAround (programKey disk path), programKey disk key ≠ k := by
  rw [invalidateContaining]
  generalize r.keysAround (programKey disk path) = keys
  generalize 0 = n
  induction keys generalizing r n with
  | nil => simp
  | cons key keys ih =>
    rw [foldl_cons, ih, forall_mem_cons, ← and_assoc]
    exact and_congr_left' (mem_dropIds.trans (and_congr_right' ne_comm))

/-- An id leads to a key in whose directory the path lies, and what it stands for is the given key. -/
def Lost (disk : Disk) (r : Registry) (path k : Path) : Prop :=
  ∃ id key, (id, key) ∈ r.ids ∧ Around disk path key ∧ (disk.canonical? key).getD key = k

section

variable {calls : List Call} {p : Program}

theorem lost_iff (hd : disk.Proper) : Lost disk (after disk classifier calls) path k ↔
    ∃ key ∈ (after disk classifier calls).keysAround (programKey disk path), programKey disk key = k := by
  have hlinked : (after disk classifier calls).Linked := .after disk classifier calls
  have hfaithful := Faithful.after disk classifier calls
  constructor
  · rintro ⟨id, key, hmem, haround, rfl⟩
    exact ⟨key, (mem_keysAround hd hlinked hfaithful).mpr ⟨⟨id, hmem⟩, haround⟩,
      (programKey_of_mem_ids hd hlinked hfaithful hmem).2⟩
  · rintro ⟨key, hkey, rfl⟩
    obtain ⟨⟨id, hmem⟩, haround⟩ := (mem_keysAround hd hlinked hfaithful).mp hkey
    exact ⟨id, key, hmem, haround, (programKey_of_mem_ids hd hlinked hfaithful hmem).2.symm⟩

theorem kept_iff (hd : disk.Proper) :
    ((after disk classifier calls).invalidateContaining disk path).2.cache.peek? k none = some p ↔
      (after disk classifier calls).cache.peek? k none = some p ∧
        ¬ Lost disk (after disk classifier calls) path k := by
  rw [peek?_invalidateContaining, lost_iff hd]
  split
  · simp [*]
  · simp [*]

theorem id_kept_iff (hd : disk.Proper) :
    (id, k) ∈ ((after disk classifier calls).invalidateContaining disk path).2.ids ↔
      (id, k) ∈ (after disk classifier calls).ids ∧ ¬ Lost disk (after disk classifier calls) path k := by
  rw [mem_ids_invalidateContaining, lost_iff hd]
  simp

theorem lost_iff_leads_nowhere (hd : disk.Proper)
    (hinj : ∀ q q', Named disk (.getOrCreate · ∈ calls) q → Named disk (.getOrCreate · ∈ calls) q' →
      programId q = programId q' → q = q')
    (hp : (after disk classifier calls).cache.peek? k none = some p) (haround : Around disk path k) :
    Lost disk (after disk classifier calls) path k ↔ ∀ c, disk.canonical? k = some c → c = k := by
  have hanchored := Anchored.after hd classifier calls hinj
  obtain ⟨q, -, -, hmem⟩ := hanchored.anchor hp
  rw [← dropped_iff hd (.after disk classifier calls) hanchored.faithful hmem haround]
  refine ⟨fun hlost ↦ ?_, fun hgone ↦ Classical.byContradiction fun hnot ↦ ?_⟩
  · exact Option.eq_none_iff_forall_ne_some.mpr fun p' hp' ↦ ((kept_iff hd).mp hp').2 hlost
  · cases hgone.symm.trans ((kept_iff hd).mpr ⟨hp, hnot⟩)

end

/-- A change to a path takes all programs away in whose directory it lies, just if none of their keys leads
elsewhere, and no other ones, just if no key that is looked at leads to them. As many are gone as are counted.
-/
theorem invalidateContaining_exact_iff (hd : disk.Proper) (classifier : Classifier) (calls : List Call)
    (path : Path) :
    let r := after disk classifier calls
    let r' := (r.invalidateContaining disk path).2
    ((∀ k p, r'.cache.peek? k none = some p → ¬ Around disk path k) ↔
      ∀ k p, r.cache.peek? k none = some p → Around disk path k → Lost disk r path k) ∧
    ((∀ q q', Named disk (.getOrCreate · ∈ calls) q → Named disk (.getOrCreate · ∈ calls) q' →
        programId q = programId q' → q = q') →
      ((∀ k p, r'.cache.peek? k none = some p → ¬ Around disk path k) ↔
        ∀ k p, r.cache.peek? k none = some p → Around disk path k → ∀ c, disk.canonical? k = some c → c = k)) ∧
    ((∀ k p, r.cache.peek? k none = some p → ¬ Around disk path k →
        r'.cache.peek? k none = some p ∧ ∀ id, (id, k) ∈ r'.ids ↔ (id, k) ∈ r.ids) ↔
      ∀ id key c, (id, key) ∈ r.ids → Around disk path key → disk.canonical? key = some c →
        ¬ Around disk path c → r.cache.peek? c none = none) ∧
    (∀ k p, r'.cache.peek? k none = some p → r.cache.peek? k none = some p) ∧
    r'.size + (r.invalidateContaining disk path).1 = r.size := by
  intro r r'
  have hcomplete : (∀ k p, r'.cache.peek? k none = some p → ¬ Around disk path k) ↔
      ∀ k p, r.cache.peek? k none = some p → Around disk path k → Lost disk r path k := by
    refine forall₂_congr fun k p ↦ ⟨fun h hp haround ↦ ?_, fun h hp haround ↦ ?_⟩
    · exact Classical.byContradiction fun hnot ↦ h ((kept_iff hd).mpr ⟨hp, hnot⟩) haround
    · obtain ⟨hp, hnot⟩ := (kept_iff hd).mp hp
      exact hnot (h hp haround)
  refine ⟨hcomplete, fun hinj ↦ hcomplete.trans ?_, ⟨fun h id key c hmem haround hc hother ↦ ?_,
    fun h k p hp hother ↦ ?_⟩, fun k p hp ↦ ((kept_iff hd).mp hp).1,
    size_invalidateContaining (Faithful.after disk classifier calls).settled disk path⟩
  · exact forall₄_congr fun k p hp haround ↦ lost_iff_leads_nowhere hd hinj hp haround
  · refine Option.eq_none_iff_forall_ne_some.mpr fun p hp ↦ ?_
    exact ((kept_iff hd).mp (h c p hp hother).1).2 ⟨id, key, hmem, haround, by rw [hc, Option.getD_some]⟩
  · have hnot : ¬ Lost disk r path k := by
      rintro ⟨id, key, hmem, haround, hk⟩
      cases hc : disk.canonical? key with
      | none =>
        rw [hc, Option.getD_none] at hk
        exact hother (hk ▸ haround)
      | some c =>
        rw [hc, Option.getD_some] at hk
        subst hk
        cases (h id key c hmem haround hc hother).symm.trans hp
    exact ⟨(kept_iff hd).mpr ⟨hp, hnot⟩, fun id ↦ (id_kept_iff hd).trans (and_iff_left hnot)⟩

end

theorem invalidateContaining_exact_iff_lone : loneProject.Proper ∧
    ((@after sizeDigest loneProject .standard [.getOrCreate ⟨"/gone/../tsconfig.json"⟩]).cache.contains
      ⟨"/tsconfig.json"⟩ = true ∧ Around loneProject ⟨"/a.ts"⟩ ⟨"/tsconfig.json"⟩) ∧
    ∀ k p, ((@after sizeDigest loneProject .standard [.getOrCreate ⟨"/gone/../tsconfig.json"⟩]).invalidateContaining
      loneProject ⟨"/a.ts"⟩).2.cache.peek? k none = some p → ¬ Around loneProject ⟨"/a.ts"⟩ k := by
  have hd : loneProject.Proper := by decide
  refine ⟨hd, by decide +kernel, (@invalidateContaining_exact_iff sizeDigest _ hd _ _ _).1.mpr ?_⟩
  intro k p hp haround
  obtain ⟨t, ht, rfl, hb⟩ := @Faithful.built sizeDigest _ _ _ _ (@Faithful.after sizeDigest _ _ _) _ _ hp
  obtain rfl : t = ⟨"/gone/../tsconfig.json"⟩ := by simpa using ht
  refine ⟨_, _, (@after_one sizeDigest _ _ _ _ hb).2, haround, ?_⟩
  rw [programKey_lostPath, canonical?_loneProject, Option.getD_some]

def crossedProjects : Disk :=
  { root := .dir [("p", .dir [("tsconfig.json", .link ⟨"../other/tsconfig.json"⟩)]),
      ("other", .dir [("tsconfig.json", .file "\x7b\x7d".toUTF8)])] }

theorem other_program_goes :
    let r := @after sizeDigest crossedProjects .standard
      [.getOrCreate ⟨"/p/gone/../tsconfig.json"⟩, .getOrCreate ⟨"/other/tsconfig.json"⟩]
    r.cache.keys = [⟨"/p/tsconfig.json"⟩, ⟨"/other/tsconfig.json"⟩] ∧
    (r.invalidateContaining crossedProjects ⟨"/p/a.ts"⟩).1 = 1 ∧
    (r.invalidateContaining crossedProjects ⟨"/p/a.ts"⟩).2.cache.keys = [⟨"/p/tsconfig.json"⟩] := by
  decide +kernel

end Registry

end AnalysisServer
