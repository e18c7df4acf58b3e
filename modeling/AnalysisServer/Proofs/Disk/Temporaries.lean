import AnalysisServer.Proofs.Disk.Entries

namespace AnalysisServer.Disk

theorem tempName_inj {m n : Nat} (h : tempName m = tempName n) : m = n := by
  have hvalue (k : Nat) : Nat.ofDigitChars 10
      (List.replicate (6 - (Nat.toDigits 10 k).length) '0' ++ Nat.toDigits 10 k) 0 = k := by
    rw [Nat.ofDigitChars_append, Nat.ofDigitChars_replicate_zero, Nat.mul_zero, Nat.ofDigitChars_ten_toDigits]
  simp only [tempName, String.append_left_inj, String.append_right_inj] at h
  have hdigits := congrArg String.toList h
  rw [String.toList_ofList, String.toList_ofList] at hdigits
  rw [← hvalue m, hdigits, hvalue n]

def temporary? (d : Disk) (n : Nat) : Option Node :=
  match d.place (d.temp.joinName (tempName n)) with
  | .ok here => d.root.get? here
  | .error _ => none

def IsFileOrNone (n : Option Node) : Prop :=
  ∀ m, n = some m → m.isFile = true

section Following

variable {root root' : Node} {x here : Location} (hsame : root.SameBut x root') (hx : IsFileOrNone (root.get? x))

include hsame hx

theorem dir_sameBut {es : List (String × Node)} (h : root.get? here = some (.dir es)) :
    ∃ es', root'.get? here = some (.dir es') := by
  have hne : here ≠ x := by
    rintro rfl
    cases hx _ h
  obtain ⟨k, hk, hserves⟩ := hsame here _ hne h
  cases hserves
  exact ⟨_, hk⟩

theorem follow_sameBut {links : Nat} {loc : Location} {todo : List String}
    (h : follow root links here todo = .ok loc) (hloc : loc ≠ x) : follow root' links here todo = .ok loc := by
  -- what is looked up in a directory stands below it, so it is seen in the other tree too
  have hentry {here es es' step n}
      (hdir : root.get? here = some (.dir es)) (hdir' : root'.get? here = some (.dir es'))
      (hes : es.lookup step = some n) (hne : here ++ [step] ≠ x) : ∃ n', es'.lookup step = some n' ∧ n.Serves n' := by
    obtain ⟨n', hn', hserves⟩ := hsame _ n hne (by rw [Node.get?_concat_dir hdir, hes])
    rw [Node.get?_concat_dir hdir'] at hn'
    exact ⟨n', hn', hserves⟩
  induction links, here, todo using follow_induction root with
  | nil links here =>
    rw [follow_nil] at h ⊢
    exact h
  | dot links here rest es hdir ih =>
    obtain ⟨es', hdir'⟩ := dir_sameBut hsame hx hdir
    rw [follow_dot hdir] at h
    rw [follow_dot hdir']
    exact ih h
  | dots links here rest es hdir ih =>
    obtain ⟨es', hdir'⟩ := dir_sameBut hsame hx hdir
    rw [follow_dots hdir] at h
    rw [follow_dots hdir']
    exact ih h
  | link left here step rest es target hstep hdir hes ih =>
    obtain ⟨es', hdir'⟩ := dir_sameBut hsame hx hdir
    have hne : here ++ [step] ≠ x := by
      rintro rfl
      cases hx (.link target) (by rw [Node.get?_concat_dir hdir, hes])
    obtain ⟨n', hes', hserves⟩ := hentry hdir hdir' hes hne
    cases hserves
    rw [follow_link hstep hdir hes] at h
    rw [follow_link hstep hdir' hes']
    exact ih h
  | entry links here step rest es n hstep hdir hes hlink ih =>
    obtain ⟨es', hdir'⟩ := dir_sameBut hsame hx hdir
    rw [follow_entry hstep hdir hes hlink] at h
    have hn : root.get? (here ++ [step]) = some n := by rw [Node.get?_concat_dir hdir, hes]
    have hne : here ++ [step] ≠ x := by
      -- the way ends at a file
      rintro rfl
      cases rest with
      | nil =>
        rw [follow_nil] at h
        cases h
        exact hloc rfl
      | cons step' rest =>
        have hfile := hx n hn
        cases n with
        | file bytes =>
          rw [follow_eq] at h
          simp only [hn] at h
          cases h
        | _ => cases hfile
    obtain ⟨n', hes', hserves⟩ := hentry hdir hdir' hes hne
    have hlink' (target : Path) : n' ≠ .link target := by
      rintro rfl
      cases hserves with
      | link => exact hlink target rfl
      | file hnot => exact hnot target rfl
    rw [follow_entry hstep hdir' hes' hlink']
    exact ih h
  | stop links here step rest e hstop =>
    cases (hstop root here rest rfl).symm.trans h

end Following

section Temporaries

variable {d d' : Disk} {dir : Location} {n k : Nat}

theorem exists_tempDir (hl : d.locate d.temp.trimmed = .ok dir) :
    ∃ parent, d.root.get? dir = some parent ∧ ∀ target, parent ≠ .link target := by
  obtain ⟨hempty, hfollow⟩ := follow_of_locate hl
  rw [if_pos d.temp.isAbsolute_trimmed] at hfollow
  refine (follow_isPlace hfollow (fun s hs ↦ isStep_of_mem_steps hs) nofun fun hnil ↦ ?_).node
  exact absurd hnil (steps_ne_nil hempty)

variable (htemp : d.temp.isAbsolute = true)

include htemp

theorem temporary?_of_locate (hl : d.locate d.temp.trimmed = .ok dir) (n : Nat) :
    d.temporary? n = d.root.get? (dir ++ [tempName n]) := by
  have hplace := place_joinName d htemp (isName_tempName n)
  rw [hl] at hplace
  unfold temporary?
  rw [hplace]
  rfl

theorem temporary?_of_error {e : DiskError} (hl : d.locate d.temp.trimmed = .error e) (n : Nat) :
    d.temporary? n = none := by
  have hplace := place_joinName d htemp (isName_tempName n)
  rw [hl] at hplace
  unfold temporary?
  rw [hplace]
  rfl

theorem temporary?_of_sameBut {s : String} (hl : d.locate d.temp.trimmed = .ok dir) (hd : d'.temp = d.temp)
    (hx : IsFileOrNone (d.root.get? (dir ++ [s]))) (hsame : d.root.SameBut (dir ++ [s]) d'.root) (n : Nat) :
    d'.temporary? n = d'.root.get? (dir ++ [tempName n]) := by
  obtain ⟨hempty, hfollow⟩ := follow_of_locate hl
  rw [if_pos d.temp.isAbsolute_trimmed] at hfollow
  have hl' : d'.locate d'.temp.trimmed = .ok dir := by
    rw [hd]
    apply locate_of_prefix hl List.prefix_rfl hempty
    rw [if_pos d.temp.isAbsolute_trimmed]
    exact follow_sameBut hsame hx hfollow (by simp)
  exact temporary?_of_locate (hd ▸ htemp) hl' n

variable {bytes : ByteArray} {p : Path}

theorem temporary?_writeTemp (hnew : d.temporary? d.made = none) (hw : d.writeTemp bytes = .ok (p, d')) (n : Nat) :
    d'.temporary? n = if n = d.made then some (.file bytes) else d.temporary? n := by
  have hd := temp_writeTemp hw
  rw [writeTemp, write, place_joinName d htemp (isName_tempName _)] at hw
  cases hl : d.locate d.temp.trimmed with
  | error e =>
    rw [hl] at hw
    cases hw
  | ok dir =>
    rw [temporary?_of_locate htemp hl] at hnew ⊢
    have hroot : d'.root = Node.put (.file bytes) (dir ++ [tempName d.made]) d.root := by
      rw [hl] at hw
      simp only [bind, Except.bind, hnew] at hw
      rw [← (Prod.mk.inj (Except.ok.inj hw)).2]
      rfl
    obtain ⟨parent, hparent, hlink⟩ := exists_tempDir hl
    have hsame := Node.sameBut_put hparent (by rw [hnew]; simp) hlink (.file bytes)
    rw [← hroot] at hsame
    rw [temporary?_of_sameBut htemp hl hd (by simp [IsFileOrNone, hnew]) hsame, hroot]
    split
    · rename_i hn
      rw [hn]
      exact Node.get?_put_self _ _ _
    · rename_i hn
      exact Node.get?_put_sibling hparent (mt tempName_inj hn)

theorem temporary?_removeFile (hk : IsFileOrNone (d.temporary? k)) (n : Nat) :
    (d.removeFile (d.temp.joinName (tempName k))).temporary? n = if n = k then none else d.temporary? n := by
  have hplace := place_joinName d htemp (isName_tempName k)
  cases hl : d.locate d.temp.trimmed with
  | error e =>
    rw [removeFile, hplace, hl, temporary?_of_error htemp hl, ite_self]
    exact temporary?_of_error htemp hl n
  | ok dir =>
    rw [temporary?_of_locate htemp hl] at hk ⊢
    have hdir (es : List (String × Node)) : d.root.get? (dir ++ [tempName k]) ≠ some (.dir es) := by
      intro hes
      cases hk _ hes
    have hroot : (d.removeFile (d.temp.joinName (tempName k))).root = Node.remove (dir ++ [tempName k]) d.root := by
      rw [removeFile, hplace, hl]
      dsimp only [bind, Except.bind]
      split
      · rename_i es hes
        exact absurd hes (hdir es)
      · rfl
    obtain ⟨parent, hparent, -⟩ := exists_tempDir hl
    have hsame := Node.sameBut_remove hparent hdir
    rw [← hroot] at hsame
    rw [temporary?_of_sameBut htemp hl (temp_removeFile _ _) hk hsame, hroot]
    split
    · rename_i hn
      rw [hn]
      rw [Node.get?_remove hparent, if_pos rfl]
    · rename_i hn
      rw [Node.get?_remove hparent, if_neg (mt tempName_inj hn)]

theorem exists?_temporary (hn : d.temporary? n = none) : d.exists? (d.temp.joinName (tempName n)) = false := by
  rw [Bool.eq_false_iff]
  intro hexists
  obtain ⟨dir, m, hdir, hm⟩ := exists_of_exists?_joinName htemp (isName_tempName n) hexists
  rw [temporary?_of_locate htemp hdir] at hn
  cases hm.symm.trans hn

end Temporaries

theorem made_writeTemp {d d' : Disk} (h : d.writeTemp bytes = .ok (p, d')) : d'.made = d.made + 1 := by
  obtain ⟨here, rfl⟩ := exists_modify_of_writeTemp h
  rfl

theorem made_removeFile (d : Disk) (p : Path) : (d.removeFile p).made = d.made := by
  unfold removeFile
  split
  · rfl
  · split <;> rfl

/-- Others have left the temporary files alone. -/
structure Spares (d d' : Disk) : Prop where
  temp : d'.temp = d.temp
  made : d'.made = d.made
  files : ∀ n, d'.temporary? n = d.temporary? n

/-- The temporary files that were made since the start and are still there are on a list, which has no other
files. -/
structure Ledger (start d : Disk) (held : List Path) : Prop where
  temp : d.temp = start.temp
  made : start.made ≤ d.made
  named : ∀ p ∈ held, ∃ n, start.made ≤ n ∧ n < d.made ∧ p = start.temp.joinName (tempName n)
  listed : ∀ n m, start.made ≤ n → d.temporary? n = some m → m.isFile = true ∧ start.temp.joinName (tempName n) ∈ held

namespace Ledger

variable {start d d' : Disk} {held held' : List Path} {p : Path}

theorem spares (h : Ledger start d held) (hs : d.Spares d') : Ledger start d' held := by
  refine ⟨hs.temp.trans h.temp, hs.made ▸ h.made, ?_, ?_⟩
  · rw [hs.made]
    exact h.named
  · intro n m hn hm
    exact h.listed n m hn (hs.files n ▸ hm)

theorem of_mem_iff (h : Ledger start d held) (hmem : ∀ p, p ∈ held' ↔ p ∈ held) : Ledger start d held' := by
  refine ⟨h.temp, h.made, fun p hp ↦ h.named p ((hmem p).mp hp), ?_⟩
  intro n m hn hm
  obtain ⟨hfile, hheld⟩ := h.listed n m hn hm
  exact ⟨hfile, (hmem _).mpr hheld⟩

variable (htemp : start.temp.isAbsolute = true)

include htemp

theorem joinName_inj {m n : Nat} (h : start.temp.joinName (tempName m) = start.temp.joinName (tempName n)) :
    m = n := by
  have hempty := Path.isEmpty_of_isAbsolute htemp
  have hname := congrArg Path.fileName? h
  rw [Path.fileName?_joinName hempty (isName_tempName m), Path.fileName?_joinName hempty (isName_tempName n)] at hname
  exact tempName_inj (Option.some.inj hname)

theorem unmade (h : Ledger start d held) {n : Nat} (hn : d.made ≤ n) : d.temporary? n = none := by
  cases hm : d.temporary? n with
  | none => rfl
  | some m =>
    obtain ⟨k, -, hk, hp⟩ := h.named _ (h.listed n m (h.made.trans hn) hm).2
    have := joinName_inj htemp hp
    omega

theorem writeTemp (h : Ledger start d held) (hw : d.writeTemp bytes = .ok (p, d')) :
    Ledger start d' (held ++ [p]) := by
  have hmade := made_writeTemp hw
  have hpath : p = start.temp.joinName (tempName d.made) := by rw [path_writeTemp hw, h.temp]
  have hfiles := temporary?_writeTemp (h.temp ▸ htemp) (h.unmade htemp (Nat.le_refl _)) hw
  refine ⟨(temp_writeTemp hw).trans h.temp, by have := h.made; omega, ?_, ?_⟩
  · intro q hq
    obtain hq | hq := List.mem_append.mp hq
    · obtain ⟨n, hn, hlt, hp⟩ := h.named q hq
      exact ⟨n, hn, by omega, hp⟩
    · exact ⟨d.made, h.made, by omega, (List.mem_singleton.mp hq).trans hpath⟩
  · intro n m hn hm
    rw [hfiles] at hm
    split at hm
    · rename_i he
      cases hm
      exact ⟨rfl, List.mem_append_right _ (by rw [he, hpath]; exact List.mem_singleton_self _)⟩
    · obtain ⟨hfile, hmem⟩ := h.listed n m hn hm
      exact ⟨hfile, List.mem_append_left _ hmem⟩

theorem removeFile (h : Ledger start d held) (hp : p ∈ held) (hsub : ∀ q ∈ held', q ∈ held)
    (hrest : ∀ q ∈ held, q ≠ p → q ∈ held') : Ledger start (d.removeFile p) held' := by
  obtain ⟨k, hk, -, rfl⟩ := h.named p hp
  have hfile : IsFileOrNone (d.temporary? k) := fun m hm ↦ (h.listed k m hk hm).1
  have hfiles := temporary?_removeFile (h.temp ▸ htemp) hfile
  rw [h.temp] at hfiles
  refine ⟨(temp_removeFile _ _).trans h.temp, ?_, ?_, ?_⟩
  · rw [made_removeFile]
    exact h.made
  · intro q hq
    rw [made_removeFile]
    exact h.named q (hsub q hq)
  · intro n m hn hm
    rw [hfiles] at hm
    split at hm
    · cases hm
    · rename_i hne
      obtain ⟨hfile, hmem⟩ := h.listed n m hn hm
      exact ⟨hfile, hrest _ hmem fun he ↦ hne (joinName_inj htemp he)⟩

end Ledger

end AnalysisServer.Disk
