import AnalysisServer.Discovery.Walk

namespace AnalysisServer.Walk

inductive Visit where
  | directory (names : Location) (isRead : Bool)
  | file (names : Location)
  | excluded (names : Location)

def Visit.event? (root : Path) : Visit → Option Event
  | .directory names _ => some (.directory (pathBelow root names))
  | .file names => some (.file (pathBelow root names))
  | .excluded _ => none

/-- A directory that cannot be read counts as one and as an error. -/
def Summary.count (sum : Summary) : Visit → Summary
  | .directory _ true => { sum with directories := sum.directories + 1 }
  | .directory _ false => { sum with directories := sum.directories + 1, errors := sum.errors + 1 }
  | .file _ => { sum with files := sum.files + 1 }
  | .excluded _ => { sum with excluded := sum.excluded + 1 }

variable {X Y : Type}

section Tours

variable (v : Visitor X) (skip : Location → Bool → Bool) (root : Path)

/-- How entries of a directory are gone through: which visits are made, and what they make of the visitor. -/
inductive Tour : Location → List (String × Node) → X → List Visit → X → Prop
  | done {front x} : Tour front [] x [] x
  | hidden {front s n es x vs x'} (hskip : skip (front ++ [s]) n.isDir = true) (rest : Tour front es x vs x') :
    Tour front ((s, n) :: es) x (.excluded (front ++ [s]) :: vs) x'
  | link {front s target es x vs x'} (hskip : skip (front ++ [s]) false = false) (rest : Tour front es x vs x') :
    Tour front ((s, .link target) :: es) x vs x'
  | file {front s bytes es x vs x'} (hskip : skip (front ++ [s]) false = false)
      (rest : Tour front es (v.visit (.file (pathBelow root (front ++ [s]))) x) vs x') :
    Tour front ((s, .file bytes) :: es) x (.file (front ++ [s]) :: vs) x'
  | unread {front s inner es x vs x' err} (hskip : skip (front ++ [s]) true = false)
      (hread : read (v.disk x) root (front ++ [s]) = .error err)
      (rest : Tour front es (v.visit (.directory (pathBelow root (front ++ [s]))) x) vs x') :
    Tour front ((s, .dir inner) :: es) x (.directory (front ++ [s]) false :: vs) x'
  | directory {front s inner found es x below x₁ vs x'} (hskip : skip (front ++ [s]) true = false)
      (hread : read (v.disk x) root (front ++ [s]) = .ok found)
      (enter : Tour (front ++ [s]) found (v.visit (.directory (pathBelow root (front ++ [s]))) x) below x₁)
      (rest : Tour front es x₁ vs x') :
    Tour front ((s, .dir inner) :: es) x (.directory (front ++ [s]) true :: below ++ vs) x'

variable {v skip root} {front : Location} {es : List (String × Node)} {x x' : X} {vs : List Visit}

theorem Tour.leads (h : Tour v skip root front es x vs x') :
    x' = (vs.filterMap (Visit.event? root)).foldl (fun x event ↦ v.visit event x) x := by
  induction h with
  | done => rfl
  | hidden _ _ ih | link _ _ ih | file _ _ ih | unread _ _ _ ih => exact ih
  | directory _ _ _ _ hbelow hrest =>
    rw [List.filterMap_append, List.foldl_append]
    exact hrest.trans (by rw [hbelow]; rfl)

theorem Tour.keeps {P : X → Prop} (hvisit : ∀ event x, P x → P (v.visit event x))
    (h : Tour v skip root front es x vs x') (hx : P x) : P x' := by
  rw [h.leads]
  exact List.foldlRecOn (motive := P) _ _ hx fun x hx event _ ↦ hvisit event x hx

theorem through_cons (depth : Nat) (front : Location) (e : String × Node) (es : List (String × Node))
    (state : Summary × X) : through v skip root (depth + 1) front (e :: es) state =
      through v skip root (depth + 1) front es (meet v skip root (through v skip root depth) front state e) :=
  rfl

theorem read_congr {d d' : Disk} (h : ∀ names, d.node (pathBelow root names) = d'.node (pathBelow root names))
    (names : Location) : read d root names = read d' root names := by
  rw [read, read, Disk.entries, Disk.entries, h]

theorem read_ok {d : Disk} {names : Location} (h : read d root names = .ok es) :
    names.length < Disk.pathLimit ∧ d.entries (pathBelow root names) = .ok es := by
  rw [read] at h
  split at h
  · exact ⟨‹_›, h⟩
  · cases h

/-- The depth never runs out, since a directory is read only if its path is not too long. -/
theorem exists_tour {depth : Nat} (hfront : front.length < Disk.pathLimit)
    (hdepth : Disk.pathLimit ≤ front.length + depth) (es : List (String × Node)) (sum : Summary) (x : X) :
    ∃ vs x', Tour v skip root front es x vs x' ∧
      through v skip root depth front es (sum, x) = (vs.foldl Summary.count sum, x') := by
  induction depth generalizing front es sum x with
  | zero => omega
  | succ depth ih =>
    induction es generalizing sum x with
    | nil => exact ⟨[], x, .done, rfl⟩
    | cons e es ihs =>
      obtain ⟨s, n⟩ := e
      rw [through_cons]
      cases hskip : skip (front ++ [s]) n.isDir with
      | true =>
        have hmeet : meet v skip root (through v skip root depth) front (sum, x) (s, n) =
            (sum.count (.excluded (front ++ [s])), x) := if_pos hskip
        obtain ⟨vs, x', htour, hrun⟩ := ihs (sum.count (.excluded (front ++ [s]))) x
        exact ⟨_, x', .hidden hskip htour, by rw [hmeet]; exact hrun⟩
      | false =>
        cases n with
        | file bytes =>
          obtain ⟨vs, x', htour, hrun⟩ := ihs (sum.count (.file (front ++ [s])))
            (v.visit (.file (pathBelow root (front ++ [s]))) x)
          refine ⟨_, x', .file hskip htour, ?_⟩
          rw [meet, hskip]
          exact hrun
        | link target =>
          obtain ⟨vs, x', htour, hrun⟩ := ihs sum x
          refine ⟨_, x', .link hskip htour, ?_⟩
          rw [meet, hskip]
          exact hrun
        | dir inner =>
          rw [meet, hskip]
          dsimp only
          cases hread : read (v.disk x) root (front ++ [s]) with
          | error err =>
            obtain ⟨vs, x', htour, hrun⟩ := ihs (sum.count (.directory (front ++ [s]) false))
              (v.visit (.directory (pathBelow root (front ++ [s]))) x)
            exact ⟨_, x', .unread hskip hread htour, hrun⟩
          | ok found =>
            have hlength : (front ++ [s]).length = front.length + 1 := List.length_append
            obtain ⟨below, x₁, henter, hbelow⟩ := ih (read_ok hread).1 (by omega) found
              (sum.count (.directory (front ++ [s]) true)) (v.visit (.directory (pathBelow root (front ++ [s]))) x)
            obtain ⟨vs, x', htour, hrun⟩ := ihs
              (below.foldl Summary.count (sum.count (.directory (front ++ [s]) true))) x₁
            refine ⟨_, x', .directory hskip hread henter htour, ?_⟩
            rw [List.foldl_append]
            exact (congrArg _ hbelow).trans hrun

theorem Visitor.walk_tour (patterns : List String) (hroot : root.same standardInput = false)
    (hes : (v.disk x).node root = .ok (.dir es)) :
    ∃ vs x', Tour v (Exclusions.ofPatterns patterns).skip root [] es x vs x' ∧
      v.walk root patterns x = (vs.foldl Summary.count {}, x') := by
  rw [walk, hroot, hes]
  exact exists_tour (by decide) (Nat.le_refl _) es {} x

theorem Visitor.walk_idle (patterns : List String)
    (h : root.same standardInput = true ∨ ∀ es, (v.disk x).node root ≠ .ok (.dir es)) :
    (v.walk root patterns x).2 = x := by
  rw [walk]
  split
  · rfl
  · split
    · rfl
    · rename_i hroot _ es hes
      exact (h.elim hroot fun hdir ↦ hdir es hes).elim
    · rfl

theorem foldl_recorder {d : Disk} (told events : List Event) :
    told.foldl (fun events event ↦ (recorder d).visit event events) events = events ++ told := by
  induction told generalizing events with
  | nil => exact (List.append_nil events).symm
  | cons event told ih => exact (ih _).trans (List.append_assoc events [event] told)

theorem Tour.recorded {d : Disk} {events events' : List Event}
    (h : Tour (recorder d) skip root front es events vs events') :
    events' = events ++ vs.filterMap (Visit.event? root) := by
  rw [h.leads]
  exact foldl_recorder _ _

theorem exists_visits (d : Disk) (root : Path) (patterns : List String) :
    ∃ vs : List Visit, (walk d root patterns).events = vs.filterMap (Visit.event? root) := by
  by_cases hidle : root.same standardInput = true ∨ ∀ es, d.node root ≠ .ok (.dir es)
  · exact ⟨[], Visitor.walk_idle (v := recorder d) patterns hidle⟩
  · rw [not_or, Bool.not_eq_true, Classical.not_forall_not] at hidle
    obtain ⟨hroot, es, hes⟩ := hidle
    obtain ⟨vs, events, htour, hrun⟩ := Visitor.walk_tour (v := recorder d) (x := []) patterns hroot hes
    exact ⟨vs, by rw [walk, hrun]; exact htour.recorded⟩

end Tours

section Alike

/-- Two visitors see the same at and below the root, and still do after any event. -/
structure Visitor.Alike (v : Visitor X) (v' : Visitor Y) (root : Path) (R : X → Y → Prop) : Prop where
  node : ∀ x y, R x y → ∀ names, (v.disk x).node (pathBelow root names) = (v'.disk y).node (pathBelow root names)
  visit : ∀ event x y, R x y → R (v.visit event x) (v'.visit event y)

namespace Visitor.Alike

variable {v : Visitor X} {v' : Visitor Y} {root : Path} {R : X → Y → Prop} {skip : Location → Bool → Bool}

def Pair (R : X → Y → Prop) (state : Summary × X) (state' : Summary × Y) : Prop :=
  state.1 = state'.1 ∧ R state.2 state'.2

theorem meet (h : v.Alike v' root R) {enter : Location → List (String × Node) → Summary × X → Summary × X}
    {enter' : Location → List (String × Node) → Summary × Y → Summary × Y}
    (henter : ∀ names es state state', Pair R state state' → Pair R (enter names es state) (enter' names es state'))
    (front : Location) (e : String × Node) {state : Summary × X} {state' : Summary × Y} (hpair : Pair R state state') :
    Pair R (Walk.meet v skip root enter front state e) (Walk.meet v' skip root enter' front state' e) := by
  obtain ⟨sum, x⟩ := state
  obtain ⟨_, y⟩ := state'
  obtain ⟨rfl, hxy⟩ := hpair
  obtain ⟨s, n⟩ := e
  simp only [Walk.meet, read_congr (h.node x y hxy)]
  split
  · exact ⟨rfl, hxy⟩
  · cases n with
    | file bytes => exact ⟨rfl, h.visit _ x y hxy⟩
    | link target => exact ⟨rfl, hxy⟩
    | dir inner =>
      dsimp only
      split
      · exact henter _ _ _ _ ⟨rfl, h.visit _ x y hxy⟩
      · exact ⟨rfl, h.visit _ x y hxy⟩

theorem through (h : v.Alike v' root R) (depth : Nat) (front : Location) (es : List (String × Node))
    (state : Summary × X) (state' : Summary × Y) (hpair : Pair R state state') :
    Pair R (Walk.through v skip root depth front es state) (Walk.through v' skip root depth front es state') := by
  induction depth generalizing front es state state' with
  | zero => exact hpair
  | succ depth ih =>
    induction es generalizing state state' with
    | nil => exact hpair
    | cons e es ihs =>
      rw [through_cons, through_cons]
      exact ihs _ _ (h.meet ih front e hpair)

theorem walk (h : v.Alike v' root R) (patterns : List String) {x : X} {y : Y} (hxy : R x y) :
    (v.walk root patterns x).1 = (v'.walk root patterns y).1 ∧
      R (v.walk root patterns x).2 (v'.walk root patterns y).2 := by
  have hnode : (v.disk x).node root = (v'.disk y).node root := h.node x y hxy []
  rw [Visitor.walk, Visitor.walk, hnode]
  split
  · exact ⟨rfl, hxy⟩
  · split
    · exact ⟨rfl, hxy⟩
    · exact h.through Disk.pathLimit [] _ _ _ ⟨rfl, hxy⟩
    · exact ⟨rfl, hxy⟩

end Visitor.Alike

theorem Visitor.walk_keeps {v : Visitor X} {P : X → Prop} (hvisit : ∀ event x, P x → P (v.visit event x)) (root : Path)
    (patterns : List String) {x : X} (hx : P x) : P (v.walk root patterns x).2 := by
  have halike : v.Alike v root fun x y ↦ x = y ∧ P x := by
    constructor
    · rintro x _ ⟨rfl, -⟩ names
      rfl
    · rintro event x _ ⟨rfl, hx⟩
      exact ⟨rfl, hvisit event x hx⟩
  exact (halike.walk patterns ⟨rfl, hx⟩).2.2

theorem walk_congr {d d' : Disk} {root : Path}
    (h : ∀ names, d.node (pathBelow root names) = d'.node (pathBelow root names)) (patterns : List String) :
    walk d root patterns = walk d' root patterns := by
  have halike : (recorder d).Alike (recorder d') root (· = ·) := ⟨fun _ _ _ ↦ h, fun event _ _ he ↦ by rw [he]; rfl⟩
  obtain ⟨hsummary, hevents⟩ := halike.walk patterns (rfl : ([] : List Event) = [])
  rw [walk, walk, Prod.ext hsummary hevents]

end Alike

end AnalysisServer.Walk
