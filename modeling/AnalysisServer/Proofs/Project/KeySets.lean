import AnalysisServer.Proofs.Project.Consistency

namespace AnalysisServer

namespace Registry

variable [Digest] {keys : Path → Prop} {r : Registry} {disk : Disk} {classifier : Classifier} {t : Path}

theorem keyedBy_getOrCreate (h : r.cache.KeyedBy keys) (ht : keys (programKey disk t)) :
    (r.getOrCreate disk classifier t).2.cache.KeyedBy keys := by
  have hget : (r.cache.get (programKey disk t)).2.KeyedBy keys := h.count _
  simp only [getOrCreate]
  split
  · exact hget
  · split
    · exact hget
    · rename_i manifest _
      have hbuilt := hget.getOrBuild ht (some manifest.fingerprint) fun _ ↦ Program.build disk manifest
      split <;> exact hbuilt

theorem keyedBy_serve {call : Call} (h : r.cache.KeyedBy keys) (hcall : ∀ t, call ≠ .getOrCreate t) :
    (r.serve disk classifier call).cache.KeyedBy keys := by
  refine serve_preserves (fun r ↦ r.cache.KeyedBy keys) ?_ ?_ ?_ h fun t ht ↦ absurd ht (hcall t)
  · intro r hit hr
    exact hr.count hit
  · intro r key hr
    exact (hr.unlink key).mono fun _ h ↦ h.1
  · intro r _
    exact ⟨.nil, nofun⟩

omit [Digest] in
theorem keyedBy_foldl_invalidate (h : r.cache.KeyedBy keys) (disk : Disk) (stale : List Path) :
    (stale.foldl (fun r t ↦ (r.invalidate disk t).2) r).cache.KeyedBy
      fun k ↦ keys k ∧ ∀ t ∈ stale, k ≠ programKey disk t := by
  induction stale generalizing r keys with
  | nil => exact h.mono fun k hk ↦ ⟨hk, nofun⟩
  | cons t stale ih =>
    have hfirst : (r.invalidate disk t).2.cache.KeyedBy fun k ↦ keys k ∧ k ≠ programKey disk t := h.unlink _
    refine (ih hfirst).mono ?_
    rintro k ⟨⟨hk, hne⟩, hrest⟩
    exact ⟨hk, List.forall_mem_cons.mpr ⟨hne, hrest⟩⟩

end Registry

end AnalysisServer
