import AnalysisServer.Discovery.Walk
import AnalysisServer.Proofs.Disk.Places

namespace AnalysisServer

open List

open AnalysisServer.Path (IsName)

section Pieces

theorem Text.split_append (separator : Char) (front back : List Char) :
    split separator (front ++ separator :: back) = split separator front ++ split separator back := by
  induction front with
  | nil => simp [split]
  | cons c front ih =>
    rw [cons_append, split, split, ih]
    split
    · rfl
    · cases hf : split separator front with
      | nil =>
        rw [split_eq_splitOn] at hf
        exact absurd hf (splitOn_ne_nil separator front)
      | cons piece pieces => rfl

/-- The names and dots of a path, without what a separator at its end asks for. -/
def Disk.pieces (p : Path) : List String :=
  ((Text.split '/' p.text.toList).filter (· ≠ [])).map String.ofList

theorem Disk.steps_eq (p : Path) : steps p = pieces p ++ if p.text.toList.getLast? = some '/' then ["."] else [] :=
  rfl

variable {p base : Path} {s : String} {names : Location}

section

variable (hp : p.text.isEmpty = false) (hs : IsName s)

include hp hs

theorem toList_joinName : (p.joinName s).text.toList =
    p.text.toList ++ (if p.text.toList.getLast? = some '/' then [] else ['/']) ++ s.toList := by
  have hrelative : (Path.mk s).isAbsolute = false := by
    have hhead : s.toList.head? ≠ some '/' := fun h ↦ hs.noSlash (mem_of_head? h)
    simpa [Path.isAbsolute] using hhead
  rw [Path.joinName, Path.join, hrelative, hp]
  split
  · contradiction
  · split <;> simp [*]

theorem isEmpty_joinName : (p.joinName s).text.isEmpty = false := by
  have hne : (p.joinName s).text.toList ≠ [] := by
    rw [toList_joinName hp hs]
    simp [hs.notEmpty]
  simpa [String.isEmpty_iff] using hne

theorem isAbsolute_joinName : (p.joinName s).isAbsolute = p.isAbsolute := by
  have hne : p.text.toList ≠ [] := by simpa [String.isEmpty_iff] using hp
  obtain ⟨c, cs, hc⟩ := exists_cons_of_ne_nil hne
  rw [Path.isAbsolute, toList_joinName hp hs, Path.isAbsolute, hc]
  rfl

theorem getLast?_joinName : (p.joinName s).text.toList.getLast? ≠ some '/' := by
  obtain ⟨c, hc⟩ := Option.isSome_iff_exists.mp (List.getLast?_isSome.mpr hs.notEmpty)
  rw [toList_joinName hp hs, List.getLast?_append, hc]
  exact fun h ↦ hs.noSlash (mem_of_getLast? (hc.trans h))

theorem split_joinName : ∃ front last,
    Text.split '/' p.text.toList = front ++ last ∧ (∀ piece ∈ last, piece = []) ∧ front ≠ [] ∧
      Text.split '/' (p.joinName s).text.toList = front ++ [s.toList] := by
  have hne (cs : List Char) : Text.split '/' cs ≠ [] := by
    rw [Text.split_eq_splitOn]
    exact splitOn_ne_nil '/' cs
  have hname : Text.split '/' s.toList = [s.toList] := by
    have h := @Text.split_intercalate '/' [s.toList] (by simpa using hs.noSlash) (by simp)
    rwa [intercalate_singleton] at h
  rw [toList_joinName hp hs]
  split
  · rename_i hlast
    obtain ⟨front, hfront⟩ := List.getLast?_eq_some_iff.mp hlast
    refine ⟨Text.split '/' front, [[]], ?_, by simp, hne _, ?_⟩
    · rw [hfront, Text.split_append]
      rfl
    · rw [hfront, append_nil, append_assoc, singleton_append, Text.split_append, hname]
  · refine ⟨Text.split '/' p.text.toList, [], (append_nil _).symm, by simp, hne _, ?_⟩
    rw [append_assoc, singleton_append, Text.split_append, hname]

theorem Disk.pieces_joinName : pieces (p.joinName s) = pieces p ++ [s] := by
  obtain ⟨front, last, hsplit, hlast, -, hjoined⟩ := split_joinName hp hs
  have hnone : last.filter (· ≠ []) = [] := by simpa using hlast
  have hkept : [s.toList].filter (· ≠ []) = [s.toList] := by simp [hs.notEmpty]
  rw [pieces, pieces, hsplit, hjoined, filter_append, filter_append, hnone, hkept, map_append,
    append_nil, map_singleton, String.ofList_toList]

theorem components_joinName : (p.joinName s).components = p.components ++ [Component.name s] := by
  obtain ⟨front, last, hsplit, hlast, hfront, hjoined⟩ := split_joinName hp hs
  have hhead (back : List (List Char)) : (front ++ back).head? = front.head? := by
    obtain ⟨piece, rest, rfl⟩ := exists_cons_of_ne_nil hfront
    rfl
  have hnone : last.filterMap Path.ofPiece? = [] :=
    filterMap_eq_nil_iff.mpr fun piece hpiece ↦ by rw [hlast piece hpiece]; rfl
  have hkept : [s.toList].filterMap Path.ofPiece? = [.name s] :=
    filterMap_cons_some (Path.ofPiece?_toList hs)
  rw [Path.components, Path.components, isAbsolute_joinName hp hs, hsplit, hjoined, hhead, hhead,
    filterMap_append, filterMap_append, hnone, hkept, append_nil, append_assoc]

end

end Pieces

theorem below_pathBelow {base : Path} {names : Location} (hbase : base.text.isEmpty = false)
    (hnames : ∀ s ∈ names, IsName s) :
    (Walk.pathBelow base names).text.isEmpty = false ∧
    (Walk.pathBelow base names).isAbsolute = base.isAbsolute ∧
    Disk.pieces (Walk.pathBelow base names) = Disk.pieces base ++ names ∧
    (Walk.pathBelow base names).components = base.components ++ names.map .name ∧
    (names ≠ [] → (Walk.pathBelow base names).text.toList.getLast? ≠ some '/') := by
  induction names generalizing base with
  | nil => simp [Walk.pathBelow, hbase]
  | cons s rest ih =>
    have hs := hnames s (.head _)
    obtain ⟨hempty, habsolute, hpieces, hcomponents, hlast⟩ := ih (isEmpty_joinName hbase hs)
      fun s' hs' ↦ hnames s' (.tail _ hs')
    refine ⟨hempty, habsolute.trans (isAbsolute_joinName hbase hs), hpieces.trans ?_, hcomponents.trans ?_,
      fun _ ↦ ?_⟩
    · rw [Disk.pieces_joinName hbase hs, append_assoc, singleton_append]
    · rw [components_joinName hbase hs, append_assoc, singleton_append, map_cons]
    · cases rest with
      | nil => exact getLast?_joinName hbase hs
      | cons s' rest => exact hlast (by simp)

namespace Disk

section Follow

variable {root : Node} {links : Nat} {here mid : Location} {front back : List String}

theorem follow_append (root : Node) (links : Nat) (here : Location) (front back : List String) :
    match follow root links here front with
    | .ok mid => ∃ left, follow root links here (front ++ back) = follow root left mid back
    | .error e => follow root links here (front ++ back) = .error e := by
  induction links, here, front using follow_induction root with
  | nil links here =>
    rw [follow_nil]
    exact ⟨links, rfl⟩
  | dot links here rest es hdir ih =>
    rwa [cons_append, follow_dot hdir, follow_dot hdir]
  | dots links here rest es hdir ih =>
    rwa [cons_append, follow_dots hdir, follow_dots hdir]
  | link left here step rest es target hstep hdir hes ih =>
    rwa [cons_append, follow_link hstep hdir hes, follow_link hstep hdir hes, ← append_assoc]
  | entry links here step rest es n hstep hdir hes hn ih =>
    rwa [cons_append, follow_entry hstep hdir hes hn, follow_entry hstep hdir hes hn]
  | stop links here step rest e hstop =>
    rw [hstop root here rest rfl]
    exact hstop root here _ rfl

def isTooLong (s : String) : Bool :=
  Text.byteLength s.toList > nameLimit

variable {n : Node}

theorem follow_tree {m : Node} {names : Location} (hm : root.get? here = some m)
    (hn : m.get? names = some n) (hlink : ∀ target, n ≠ .link target) (hnames : ∀ s ∈ names, IsName s) :
    follow root links here names =
      if names.any isTooLong then .error .nameTooLong else .ok (here ++ names) := by
  induction names generalizing here m with
  | nil => simp [follow_nil]
  | cons s rest ih =>
    obtain ⟨es, n', rfl, hes, hn'⟩ := Node.get?_cons hn
    have hs := hnames s (.head _)
    have hdot : s ≠ "." := fun he ↦ hs.notDot (by rw [he]; rfl)
    have hdots : s ≠ ".." := fun he ↦ hs.notDots (by rw [he]; rfl)
    by_cases hlong : Text.byteLength s.toList > nameLimit
    · rw [follow_eq]
      simp only [hm, hdot, hdots, hlong, if_true, if_false, any_cons, isTooLong, decide_true, Bool.true_or]
    · have hentry : ∀ target, n' ≠ .link target := by
        rintro target rfl
        cases rest with
        | nil =>
          cases hn'
          exact hlink target rfl
        | cons s' rest => cases hn'
      have hhere : root.get? (here ++ [s]) = some n' := by
        rw [Node.get?_append, hm, Option.bind_some, Node.get?, hes]
        rfl
      rw [follow_entry ⟨hdot, hdots, Nat.not_lt.mp hlong⟩ hm hes hentry,
        ih hhere hn' fun s' hs' ↦ hnames s' (.tail _ hs')]
      simp [isTooLong, hlong]

end Follow

/-- Why a path below a directory leads nowhere although something stands there. -/
def fault? (base : Path) (names : Location) : Option DiskError :=
  if (Walk.pathBelow base names).text.toList.contains '\x00' then some .nulInPath
  else if Text.byteLength (Walk.pathBelow base names).text.toList > pathLimit then some .nameTooLong
  else if names.any isTooLong then some .nameTooLong
  else none

variable {d : Disk} {base : Path} {here names : Location} {es : List (String × Node)}

theorem exists_locate (h : d.node base = .ok n) : ∃ here, d.locate base = .ok here ∧ d.root.get? here = some n := by
  rw [node] at h
  cases hl : d.locate base with
  | error e =>
    rw [hl] at h
    cases h
  | ok here =>
    rw [hl] at h
    simp only [bind, Except.bind] at h
    split at h
    · cases h
      exact ⟨here, rfl, ‹_›⟩
    · cases h

theorem follow_pieces {links : Nat} {start : Location} {p : Path}
    (h : follow d.root links start (steps p) = .ok here) :
    follow d.root links start (pieces p) = .ok here := by
  rw [steps_eq] at h
  have happend := follow_append d.root links start (pieces p)
    (if p.text.toList.getLast? = some '/' then ["."] else [])
  cases hf : follow d.root links start (pieces p) with
  | error e =>
    rw [hf] at happend
    rw [happend] at h
    cases h
  | ok mid =>
    rw [hf] at happend
    obtain ⟨left, hleft⟩ := happend
    rw [hleft] at h
    split at h
    · -- a dot at the end stays where it is
      rw [follow_eq] at h
      dsimp only at h
      split at h
      · rwa [follow_nil] at h
      · cases h
      · cases h
    · rwa [follow_nil] at h

theorem locate_pathBelow (hlocate : d.locate base = .ok here)
    (hdir : d.root.get? here = some (.dir es)) (hnames : ∀ s ∈ names, IsName s) (hne : names ≠ [])
    (hn : (Node.dir es).get? names = some n) (hlink : ∀ target, n ≠ .link target) :
    d.locate (Walk.pathBelow base names) =
      match fault? base names with
      | none => .ok (here ++ names)
      | some e => .error e := by
  obtain ⟨hempty, hfollow⟩ := follow_of_locate hlocate
  obtain ⟨hbelow, habsolute, hpieces, -, hlast⟩ := below_pathBelow hempty hnames
  have hsteps : steps (Walk.pathBelow base names) = pieces base ++ names := by
    rw [steps_eq, if_neg (hlast hne), append_nil, hpieces]
  have happend := follow_append d.root linkLimit (if base.isAbsolute then [] else d.current) (pieces base) names
  rw [follow_pieces hfollow] at happend
  obtain ⟨left, hleft⟩ := happend
  rw [locate, hbelow, habsolute, hsteps, hleft, follow_tree hdir hn hlink hnames, fault?]
  simp only [Bool.false_eq_true, if_false]
  split
  · rfl
  · split
    · rfl
    · split <;> rfl

theorem node_pathBelow (hbase : d.node base = .ok (.dir es)) (hnames : ∀ s ∈ names, IsName s)
    (hne : names ≠ []) (hn : (Node.dir es).get? names = some n) (hlink : ∀ target, n ≠ .link target) :
    d.node (Walk.pathBelow base names) =
      match fault? base names with
      | none => .ok n
      | some e => .error e := by
  obtain ⟨here, hlocate, hdir⟩ := exists_locate hbase
  have hget : d.root.get? (here ++ names) = some n := by
    rw [Node.get?_append, hdir, Option.bind_some, hn]
  rw [node, locate_pathBelow hlocate hdir hnames hne hn hlink]
  cases fault? base names with
  | none => simp only [bind, Except.bind, hget]
  | some e => rfl

end Disk

end AnalysisServer
