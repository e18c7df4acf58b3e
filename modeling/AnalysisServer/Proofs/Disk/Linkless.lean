import AnalysisServer.Proofs.Disk.Trees
import AnalysisServer.Proofs.Project.Consistency

namespace AnalysisServer

open List

namespace Node

mutual

def isLinkless : Node → Bool
  | file _ => true
  | link _ => false
  | dir es => linklessEntries es

def linklessEntries : List (String × Node) → Bool
  | [] => true
  | (_, n) :: es => n.isLinkless && linklessEntries es

end

variable {es : List (String × Node)} {n : Node} {s : String} {m : Node}

theorem linklessEntries_iff : linklessEntries es = true ↔ ∀ e ∈ es, e.2.isLinkless = true := by
  induction es with
  | nil => simp [linklessEntries]
  | cons e es ih => simp [linklessEntries, ih]

theorem isLinkless_of_lookup (h : (dir es).isLinkless = true) (hes : es.lookup s = some n) : n.isLinkless = true := by
  rw [isLinkless, linklessEntries_iff] at h
  exact h (s, n) (mem_of_lookup hes)

theorem isLinkless_of_get? {x : Location} (h : n.isLinkless = true) (hx : n.get? x = some m) :
    m.isLinkless = true := by
  induction x generalizing n with
  | nil =>
    cases hx
    exact h
  | cons s rest ih =>
    obtain ⟨es, c, rfl, hes, hc⟩ := get?_cons hx
    exact ih (isLinkless_of_lookup h hes) hc

theorem isLinkless_insertEntry (h : (dir es).isLinkless = true) (hn : n.isLinkless = true) :
    (dir (insertEntry s n es)).isLinkless = true := by
  rw [isLinkless, linklessEntries_iff] at h ⊢
  intro e he
  rcases mem_insertEntry he with rfl | he
  · exact hn
  · exact h e he

theorem isLinkless_put (hm : m.isLinkless = true) (hn : n.isLinkless = true) (x : Location) :
    (put m x n).isLinkless = true := by
  induction x generalizing n with
  | nil => exact hm
  | cons s rest ih =>
    cases n with
    | dir es =>
      apply isLinkless_insertEntry hn
      apply ih
      cases hes : es.lookup s with
      | none => rfl
      | some c => exact isLinkless_of_lookup hn hes
    | _ => simpa [put, isLinkless, linklessEntries] using ih rfl

theorem isLinkless_remove (hn : n.isLinkless = true) (x : Location) : (remove x n).isLinkless = true := by
  induction x generalizing n with
  | nil => rfl
  | cons s rest ih =>
    cases n with
    | dir es =>
      cases rest with
      | nil =>
        rw [remove, isLinkless, linklessEntries_iff]
        rw [isLinkless, linklessEntries_iff] at hn
        intro e he
        exact hn e ((mem_filter.mp he).1)
      | cons s' rest =>
        cases hes : es.lookup s with
        | none => simpa only [remove, hes] using hn
        | some c =>
          rw [remove_cons_dir (cons_ne_nil _ _) hes]
          exact isLinkless_insertEntry hn (ih (isLinkless_of_lookup hn hes))
    | _ => cases rest <;> exact hn

end Node

namespace Disk

open AnalysisServer.Path (IsName ofNames ofPiece? resolveDots)

variable {d d' : Disk} {p t : Path} {bytes : ByteArray}

theorem isLinkless_removeFile (h : d.root.isLinkless = true) (p : Path) :
    (d.removeFile p).root.isLinkless = true := by
  rw [removeFile]
  split
  · exact h
  · split
    · exact h
    · exact Node.isLinkless_remove h _

theorem isLinkless_writeTemp (h : d.root.isLinkless = true) (hw : d.writeTemp bytes = .ok (p, d')) :
    d'.root.isLinkless = true := by
  obtain ⟨here, rfl⟩ := exists_modify_of_writeTemp hw
  exact Node.isLinkless_put rfl h here

theorem follow_linkless {root : Node} {links : Nat} {here loc : Location} {todo : List String}
    (hroot : root.isLinkless = true) (htodo : ∀ s ∈ todo, IsStep s)
    (h : follow root links here todo = .ok loc) :
    loc = resolveDots here.reverse (todo.filterMap fun s ↦ ofPiece? s.toList) := by
  induction links, here, todo using follow_induction root with
  | nil links here =>
    rw [follow_nil] at h
    cases h
    simp [resolveDots]
  | dot links here rest es hdir ih =>
    rw [follow_dot hdir] at h
    exact ih (fun s hs ↦ htodo s (.tail _ hs)) h
  | dots links here rest es hdir ih =>
    rw [follow_dots hdir] at h
    have hpiece : ofPiece? "..".toList = some .parent := rfl
    rw [ih (fun s hs ↦ htodo s (.tail _ hs)) h]
    simp only [filterMap_cons, hpiece, resolveDots, tail_reverse]
  | link left here step rest es target hstep hdir hes ih =>
    have hlink := Node.isLinkless_of_lookup (Node.isLinkless_of_get? hroot hdir) hes
    cases hlink
  | entry links here step rest es n hstep hdir hes hlink ih =>
    rw [follow_entry hstep hdir hes hlink] at h
    have hname := (htodo step (.head _)).isName hstep.notDot hstep.notDots
    have hpiece : ofPiece? step.toList = some (.name step) := Path.ofPiece?_toList hname
    rw [ih (fun s hs ↦ htodo s (.tail _ hs)) h]
    simp only [filterMap_cons, hpiece, resolveDots, reverse_append, reverse_singleton, singleton_append]
  | stop links here step rest e hstop =>
    cases (hstop root here rest rfl).symm.trans h

theorem filterMap_steps (p : Path) : (steps p).filterMap (fun s ↦ ofPiece? s.toList) =
    (Text.split '/' p.text.toList).filterMap ofPiece? := by
  have hlast : (if p.text.toList.getLast? = some '/' then ["."] else []).filterMap
      (fun s ↦ ofPiece? s.toList) = [] := by
    split <;> rfl
  have hempty (pieces : List (List Char)) :
      (pieces.filter (· ≠ [])).filterMap ofPiece? = pieces.filterMap ofPiece? := by
    induction pieces with
    | nil => rfl
    | cons piece pieces ih =>
      by_cases hp : piece = []
      · subst hp
        rw [filter_cons_of_neg (by simp), ih]
        rfl
      · rw [filter_cons_of_pos (by simpa using hp), filterMap_cons, filterMap_cons, ih]
  rw [steps, filterMap_append, hlast, append_nil, filterMap_map, ← hempty]
  simp [String.toList_ofList]

theorem canonical?_linkless {c : Path} (hd : d.root.isLinkless = true) (ht : t.isAbsolute = true)
    (h : d.canonical? t = some c) : c = t.normalize := by
  obtain ⟨loc, hl, hc⟩ := exists_locate_of_canonical? h
  rw [hc, follow_linkless hd (fun s hs ↦ isStep_of_mem_steps hs) (follow_of_locate hl).2, filterMap_steps,
    Path.normalize, ht, Path.components, ht]
  rfl

/-- Without links the key of an absolute path is its normal form, whether there is anything or not. -/
theorem programKey_linkless (hd : d.root.isLinkless = true) (ht : t.isAbsolute = true) :
    programKey d t = t.normalize := by
  cases hc : d.canonical? t with
  | some c =>
    rw [Registry.programKey_found hc]
    exact canonical?_linkless hd ht hc
  | none =>
    obtain ⟨names, hnames, hn⟩ := t.exists_normalize
    rw [ht] at hn
    rw [programKey_absent hc, hn]
    rcases eq_nil_or_concat names with rfl | ⟨front, s, rfl⟩
    · rw [settled, Path.parent?_ofNames hnames]
      rfl
    · rw [concat_eq_append] at hnames ⊢
      have hfront : ∀ s ∈ front, IsName s := fun s hs ↦ hnames s (mem_append_left _ hs)
      have hs : IsName s := hnames s (by simp)
      rw [settled_concat hfront hs]
      cases hdir : d.canonical? (ofNames true front) with
      | none => rfl
      | some dir =>
        rw [canonical?_linkless hd (Path.isAbsolute_ofNames true hfront) hdir, Path.normalize_ofNames hfront]
        exact Path.joinName_ofNames hfront hs

/-- Without links a program key says where an absolute path leads, however it is written and whether there is
anything or not. -/
theorem program_keys_locate (hd : d.root.isLinkless = true) :
    (∀ t : Path, t.isAbsolute = true → programKey d t = t.normalize) ∧
    (∀ t : Path, t.normalize.normalize = t.normalize ∧
      ∀ piece ∈ Text.split '/' t.normalize.text.toList, piece ≠ ['.'] ∧ piece ≠ ['.', '.']) ∧
    (∀ t t' : Path, t.isAbsolute = true → t'.isAbsolute = true →
      (programKey d t = programKey d t' ↔ t.normalize.same t'.normalize = true)) ∧
    ∀ t : Path, t.isAbsolute = true → programKey d (programKey d t) = programKey d t := by
  refine ⟨fun t ↦ programKey_linkless hd, fun t ↦ ⟨t.normalize_normalize, t.no_dots_normalize⟩,
    fun t t' ht ht' ↦ ?_, fun t ht ↦ ?_⟩
  · rw [programKey_linkless hd ht, programKey_linkless hd ht', Path.same_iff]
    exact ⟨congrArg Path.components, Path.eq_of_components t.normalize_normalize t'.normalize_normalize⟩
  · obtain ⟨names, hnames, hn⟩ := t.exists_normalize
    have habsolute : t.normalize.isAbsolute = true := by rw [hn, Path.isAbsolute_ofNames _ hnames, ht]
    rw [programKey_linkless hd ht, programKey_linkless hd habsolute, t.normalize_normalize]

def oneFile : Disk :=
  { root := .dir [("shop", .dir [("a.ts", .file "1".toUTF8)])] }

/-- A file that is there, one that is not, and one whose directory is not there either. -/
theorem program_keys_locate_oneFile : oneFile.root.isLinkless = true ∧
    programKey oneFile ⟨"/shop/.//a.ts"⟩ = ⟨"/shop/a.ts"⟩ ∧
    programKey oneFile ⟨"/lost/../shop/b.ts/"⟩ = ⟨"/shop/b.ts"⟩ ∧
    programKey oneFile ⟨"/../lost/./more/c.ts"⟩ = ⟨"/lost/more/c.ts"⟩ ∧
    programKey oneFile ⟨"/shop/x/../a.ts"⟩ = programKey oneFile ⟨"/shop/a.ts"⟩ := by
  have hd : oneFile.root.isLinkless = true := rfl
  obtain ⟨hkey, -, hsame, -⟩ := program_keys_locate hd
  refine ⟨hd, (hkey _ ?_).trans ?_, (hkey _ ?_).trans ?_, (hkey _ ?_).trans ?_, (hsame _ _ ?_ ?_).mpr ?_⟩ <;>
    decide +kernel

end Disk

end AnalysisServer
