import AnalysisServer.Proofs.Disk.Places

namespace AnalysisServer.Node

open List

section Entries

variable {name s : String} {n : Node} {es : List (String × Node)}

theorem lookup_insertEntry (name : String) (n : Node) (es : List (String × Node)) :
    (insertEntry name n es).lookup name = some n := by
  induction es with
  | nil => simp [insertEntry]
  | cons e es ih =>
    obtain ⟨s, m⟩ := e
    rw [insertEntry]
    split
    · simp
    · split
      · simp
      · rename_i hne
        simpa [lookup_cons, beq_false_of_ne hne] using ih

theorem lookup_insertEntry_of_ne (h : s ≠ name) : (insertEntry name n es).lookup s = es.lookup s := by
  induction es with
  | nil => simp [insertEntry, lookup_cons, beq_false_of_ne h]
  | cons e es ih =>
    obtain ⟨s', m⟩ := e
    rw [insertEntry]
    split
    · rw [lookup_cons, beq_false_of_ne h]
    · split
      · rename_i heq
        rw [lookup_cons, lookup_cons, ← heq, beq_false_of_ne h]
      · rw [lookup_cons, lookup_cons, ih]

theorem mem_insertEntry {name : String} {n : Node} {es : List (String × Node)} {e : String × Node}
    (h : e ∈ insertEntry name n es) : e = (name, n) ∨ e ∈ es := by
  induction es with
  | nil => exact .inl (mem_singleton.mp h)
  | cons e' es ih =>
    obtain ⟨s, m⟩ := e'
    rw [insertEntry] at h
    split at h
    · exact mem_cons.mp h
    · split at h
      · rcases mem_cons.mp h with h | h
        · exact .inl h
        · exact .inr (.tail _ h)
      · rcases mem_cons.mp h with h | h
        · exact .inr (h ▸ mem_cons_self)
        · rcases ih h with h | h
          · exact .inl h
          · exact .inr (.tail _ h)

theorem lookup_eraseEntry (name s : String) (es : List (String × Node)) :
    (eraseEntry name es).lookup s = if s = name then none else es.lookup s := by
  induction es with
  | nil => simp [eraseEntry]
  | cons e es ih =>
    obtain ⟨s', m⟩ := e
    rw [eraseEntry] at ih ⊢
    by_cases hs : s' = name
    · rw [filter_cons_of_neg (by simp [hs]), ih]
      split
      · rfl
      · rename_i hne
        rw [lookup_cons, hs, beq_false_of_ne hne]
    · rw [filter_cons_of_pos (by simp [hs]), lookup_cons, lookup_cons, ih]
      grind

end Entries

/-- What can take the place of a node without anybody noticing who passes it on the way to elsewhere. -/
inductive Serves : Node → Node → Prop
  | dir {es es'} : Serves (.dir es) (.dir es')
  | link {target} : Serves (.link target) (.link target)
  | file {bytes n} (h : ∀ target, n ≠ .link target) : Serves (.file bytes) n

theorem Serves.refl (n : Node) : n.Serves n := by
  cases n with
  | file bytes => exact .file nofun
  | link target => exact .link
  | dir es => exact .dir

/-- Wherever something stands in a tree, something that serves as well stands in another one, but for one
location. -/
def SameBut (x : Location) (n n' : Node) : Prop :=
  ∀ y k, y ≠ x → n.get? y = some k → ∃ k', n'.get? y = some k' ∧ k.Serves k'

section Trees

variable {n m c c' parent : Node} {es es' : List (String × Node)} {front rest : Location} {s s' : String}

theorem get?_cons_dir (s : String) (rest : Location) (es : List (String × Node)) :
    (dir es).get? (s :: rest) = (es.lookup s).bind (get? rest) := by
  rw [get?]
  cases es.lookup s <;> rfl

theorem get?_concat_dir (h : n.get? front = some (.dir es)) (s : String) : n.get? (front ++ [s]) = es.lookup s := by
  rw [get?_append, h, Option.bind_some, get?_cons_dir]
  cases es.lookup s <;> rfl

theorem remove_cons_dir (h : rest ≠ []) (hes : es.lookup s = some c) :
    remove (s :: rest) (dir es) = dir (insertEntry s (remove rest c) es) := by
  cases rest with
  | nil => exact absurd rfl h
  | cons s' rest => simp only [remove, hes]

theorem get?_put_self (m n : Node) (x : Location) : (put m x n).get? x = some m := by
  induction x generalizing n with
  | nil => rfl
  | cons a rest ih => cases n <;> simp [put, get?_cons_dir, lookup_insertEntry, ih]

theorem SameBut.entries (hes : ∀ b, b ≠ s → es'.lookup b = es.lookup b)
    (hdir : ∀ fs, es.lookup s ≠ some (.dir fs)) : SameBut [s] (.dir es) (.dir es') := by
  intro y k hy hk
  cases y with
  | nil =>
    cases hk
    exact ⟨_, rfl, .dir⟩
  | cons b y =>
    by_cases hb : b = s
    · -- nothing stands below the location, as there is no directory
      subst hb
      obtain ⟨_, c, he, hc, hk⟩ := get?_cons hk
      cases he
      cases y with
      | nil => exact absurd rfl hy
      | cons b' y =>
        obtain ⟨fs, _, rfl, _⟩ := get?_cons hk
        exact absurd hc (hdir fs)
    · refine ⟨k, ?_, .refl k⟩
      rwa [get?_cons_dir, hes b hb, ← get?_cons_dir]

theorem SameBut.below (h : SameBut rest c c') (hes : es.lookup s = some c) :
    SameBut (s :: rest) (.dir es) (.dir (insertEntry s c' es)) := by
  intro y k hy hk
  cases y with
  | nil =>
    cases hk
    exact ⟨_, rfl, .dir⟩
  | cons b y =>
    rw [get?_cons_dir] at hk ⊢
    by_cases hb : b = s
    · subst hb
      rw [hes, Option.bind_some] at hk
      rw [lookup_insertEntry, Option.bind_some]
      apply h y k _ hk
      intro he
      exact hy (by rw [he])
    · rw [lookup_insertEntry_of_ne hb]
      exact ⟨k, hk, .refl k⟩

variable (hparent : n.get? front = some parent)

include hparent

theorem get?_put_sibling (hs : s' ≠ s) : (put m (front ++ [s]) n).get? (front ++ [s']) = n.get? (front ++ [s']) := by
  induction front generalizing n with
  | nil =>
    cases n <;>
      simp [put, get?_cons_dir, lookup_insertEntry_of_ne hs, get?, lookup_cons, beq_false_of_ne hs]
  | cons a front ih =>
    obtain ⟨es, c, rfl, hes, hc⟩ := get?_cons hparent
    simp only [cons_append, put, get?_cons_dir, lookup_insertEntry, hes, Option.getD_some, Option.bind_some]
    exact ih hc

theorem get?_remove (s s' : String) :
    (remove (front ++ [s]) n).get? (front ++ [s']) = if s' = s then none else n.get? (front ++ [s']) := by
  induction front generalizing n with
  | nil => cases n <;> simp [remove, get?_cons_dir, lookup_eraseEntry, get?]
  | cons a front ih =>
    obtain ⟨es, c, rfl, hes, hc⟩ := get?_cons hparent
    rw [cons_append, cons_append, remove_cons_dir (by simp) hes, get?_cons_dir, get?_cons_dir,
      lookup_insertEntry, hes, Option.bind_some, Option.bind_some]
    exact ih hc

variable (hdir : ∀ es, n.get? (front ++ [s]) ≠ some (.dir es))

include hdir

theorem sameBut_put (hlink : ∀ target, parent ≠ .link target) (m : Node) :
    SameBut (front ++ [s]) n (put m (front ++ [s]) n) := by
  induction front generalizing n with
  | nil =>
    cases hparent
    cases parent with
    | dir es =>
      apply SameBut.entries
      · intro b hb
        exact lookup_insertEntry_of_ne hb
      · intro fs hfs
        exact hdir fs (by rw [nil_append, get?_cons_dir, hfs]; rfl)
    | file bytes =>
      intro y k hy hk
      cases y with
      | nil =>
        cases hk
        exact ⟨_, rfl, .file nofun⟩
      | cons b y => cases hk
    | link target => exact absurd rfl (hlink target)
  | cons a front ih =>
    obtain ⟨es, c, rfl, hes, hc⟩ := get?_cons hparent
    simp only [cons_append, put, hes, Option.getD_some]
    refine .below (ih hc fun fs hfs ↦ hdir fs ?_) hes
    rwa [cons_append, get?_cons_dir, hes]

theorem sameBut_remove : SameBut (front ++ [s]) n (remove (front ++ [s]) n) := by
  induction front generalizing n with
  | nil =>
    cases n with
    | dir es =>
      apply SameBut.entries
      · intro b hb
        rw [lookup_eraseEntry, if_neg hb]
      · intro fs hfs
        exact hdir fs (by rw [nil_append, get?_cons_dir, hfs]; rfl)
    | _ => exact fun y k _ hk ↦ ⟨k, hk, .refl k⟩
  | cons a front ih =>
    obtain ⟨es, c, rfl, hes, hc⟩ := get?_cons hparent
    rw [cons_append, remove_cons_dir (by simp) hes]
    refine .below (ih hc fun fs hfs ↦ hdir fs ?_) hes
    rwa [cons_append, get?_cons_dir, hes]

end Trees

end AnalysisServer.Node
