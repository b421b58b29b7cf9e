import Mathlib.Data.List.Basic

/-!
# Paths, lexically

A path is absolute or not and goes through components: a name, or `..`. Joining an
absolute path to another replaces it. Normalised, a `..` takes back the name in front
of it; at the root it leads nowhere, and a relative path keeps it.

`below_joinPaths_iff`: paths that are joined to a directory one after the other lead
nowhere but below it, whatever the directory, exactly if none is absolute and no `..`
takes back more than was named.
-/

namespace Lib

/-- A component of a path; `.` is none. -/
inductive Component (α : Type*) where
  | normal (name : α)
  | parent
deriving DecidableEq, Repr

structure FilePath (α : Type*) where
  absolute : Bool
  components : List (Component α)
deriving DecidableEq, Repr

namespace FilePath

variable {α : Type*}

def join (dir p : FilePath α) : FilePath α :=
  if p.absolute then p else ⟨dir.absolute, dir.components ++ p.components⟩

/-- Join one after the other. -/
def joined (dir : FilePath α) (ps : List (FilePath α)) : FilePath α := ps.foldl join dir

/-! ## Normalisation -/

/-- One component more; the last one is in front. -/
def push (absolute : Bool) (stack : List (Component α)) : Component α → List (Component α)
  | .normal name => .normal name :: stack
  | .parent =>
    match stack with
    | .normal _ :: rest => rest
    | _ => if absolute then stack else .parent :: stack

/-- Where a path leads, the last component in front. -/
def stack (p : FilePath α) : List (Component α) := p.components.foldl (push p.absolute) []

def normalize (p : FilePath α) : FilePath α := ⟨p.absolute, p.stack.reverse⟩

/-- Normalised, `p` is `dir` and names. -/
def Below (dir p : FilePath α) : Prop :=
  ∃ names : List α,
    p.normalize = ⟨dir.absolute, dir.normalize.components ++ names.map .normal⟩

/-- No `..` takes back more than `depth` names and what has been named. -/
def stays : Nat → List (Component α) → Bool
  | _, [] => true
  | depth, .normal _ :: cs => stays (depth + 1) cs
  | 0, .parent :: _ => false
  | depth + 1, .parent :: cs => stays depth cs

/-! ## Staying below -/

theorem below_iff {dir p : FilePath α} : Below dir p ↔
    p.absolute = dir.absolute ∧ ∃ names : List α, p.stack = names.map .normal ++ dir.stack := by
  unfold Below normalize
  constructor
  · rintro ⟨names, h⟩
    rw [FilePath.mk.injEq] at h
    refine ⟨h.1, names.reverse, ?_⟩
    rw [← List.reverse_reverse p.stack, h.2]
    simp
  · rintro ⟨ha, names, h⟩
    refine ⟨names.reverse, ?_⟩
    rw [FilePath.mk.injEq]
    refine ⟨ha, ?_⟩
    rw [h]
    simp

theorem Below.refl (dir : FilePath α) : Below dir dir := below_iff.mpr ⟨rfl, [], rfl⟩

/-- Names are taken back one by one, and nothing under them. -/
theorem foldl_push_of_stays (absolute : Bool) {cs : List (Component α)} {names : List α}
    (h : stays names.length cs = true) (base : List (Component α)) :
    ∃ names' : List α,
      cs.foldl (push absolute) (names.map .normal ++ base) = names'.map .normal ++ base := by
  induction cs generalizing names with
  | nil => exact ⟨names, rfl⟩
  | cons c cs ih =>
      cases c with
      | normal name =>
          rw [stays] at h
          exact @ih (name :: names) h
      | parent =>
          cases names with
          | nil => exact absurd h (by rw [List.length_nil, stays]; exact Bool.false_ne_true)
          | cons name names =>
              rw [List.length_cons, stays] at h
              exact ih h

theorem parent_mem_push {stack : List (Component α)} (h : .parent ∈ stack) (c : Component α) :
    .parent ∈ push false stack c := by
  cases c with
  | normal name => exact List.mem_cons_of_mem _ h
  | parent =>
      cases stack with
      | nil => exact absurd h List.not_mem_nil
      | cons top rest =>
          cases top with
          | normal name => exact (List.mem_cons.mp h).resolve_left nofun
          | parent => exact List.mem_cons_self

theorem parent_mem_foldl_push (cs : List (Component α)) {stack : List (Component α)}
    (h : .parent ∈ stack) : .parent ∈ cs.foldl (push false) stack := by
  induction cs generalizing stack with
  | nil => exact h
  | cons c cs ih => exact ih (parent_mem_push h c)

/-- A `..` too many stays in front of a relative path. -/
theorem parent_mem_of_not_stays {cs : List (Component α)} {names : List α}
    (h : stays names.length cs = false) :
    .parent ∈ cs.foldl (push false) (names.map .normal) := by
  induction cs generalizing names with
  | nil => exact absurd h (by rw [stays]; exact Bool.noConfusion)
  | cons c cs ih =>
      cases c with
      | normal name =>
          rw [stays] at h
          exact @ih (name :: names) h
      | parent =>
          cases names with
          | nil => exact parent_mem_foldl_push cs List.mem_cons_self
          | cons name names =>
              rw [List.length_cons, stays] at h
              exact ih h

/-! ## Paths joined in turn -/

theorem joined_of_relative {dir : FilePath α} {ps : List (FilePath α)}
    (h : ∀ p ∈ ps, p.absolute = false) :
    joined dir ps = ⟨dir.absolute, dir.components ++ ps.flatMap components⟩ := by
  unfold joined
  induction ps generalizing dir with
  | nil => rw [List.foldl_nil, List.flatMap_nil, List.append_nil]
  | cons p ps ih =>
      rw [List.forall_mem_cons] at h
      rw [List.foldl_cons, ih h.2, join, if_neg (by rw [h.1]; exact Bool.false_ne_true),
        List.flatMap_cons, List.append_assoc]

theorem absolute_joined {dir : FilePath α} (h : dir.absolute = true) (ps : List (FilePath α)) :
    (joined dir ps).absolute = true := by
  unfold joined
  induction ps generalizing dir with
  | nil => exact h
  | cons p ps ih =>
      refine ih ?_
      unfold join
      split
      · assumption
      · exact h

theorem absolute_joined_of_mem {ps : List (FilePath α)} {p : FilePath α} (hp : p ∈ ps)
    (h : p.absolute = true) (dir : FilePath α) : (joined dir ps).absolute = true := by
  obtain ⟨pre, post, rfl⟩ := List.append_of_mem hp
  unfold joined
  rw [List.foldl_append, List.foldl_cons, join, if_pos h]
  exact absolute_joined h post

/-- The paths lead nowhere but below the directory they are joined to. -/
def Contained (ps : List (FilePath α)) : Prop :=
  (∀ p ∈ ps, p.absolute = false) ∧ stays 0 (ps.flatMap components) = true

instance (ps : List (FilePath α)) : Decidable (Contained ps) :=
  inferInstanceAs (Decidable (_ ∧ _))

theorem Contained.below {ps : List (FilePath α)} (h : Contained ps) (dir : FilePath α) :
    Below dir (joined dir ps) := by
  rw [joined_of_relative h.1, below_iff]
  refine ⟨rfl, ?_⟩
  obtain ⟨names, hn⟩ := @foldl_push_of_stays _ dir.absolute _ [] h.2 dir.stack
  refine ⟨names, ?_⟩
  rw [← hn]
  exact List.foldl_append

/-- The empty relative path lies below nothing that one can climb to. -/
theorem contained_of_below {ps : List (FilePath α)} (h : Below ⟨false, []⟩ (joined ⟨false, []⟩ ps)) :
    Contained ps := by
  obtain ⟨ha, names, hn⟩ := below_iff.mp h
  have hrel : ∀ p ∈ ps, p.absolute = false := fun p hp => by
    by_contra hne
    rw [absolute_joined_of_mem hp (Bool.not_eq_false _ |>.mp hne)] at ha
    exact Bool.noConfusion ha
  refine ⟨hrel, ?_⟩
  by_contra hne
  have hmem := @parent_mem_of_not_stays _ _ [] (Bool.not_eq_true _ |>.mp hne)
  rw [joined_of_relative hrel] at hn
  have hstack : (ps.flatMap components).foldl (push false) [] = names.map .normal ++ [] := hn
  rw [List.map_nil, hstack, List.append_nil] at hmem
  obtain ⟨n, -, hnorm⟩ := List.mem_map.mp hmem
  cases hnorm

end FilePath

/-! ## Text -/

/-- What stands between slashes. -/
def Component.ofPiece (piece : List Char) : Option (Component String) :=
  if piece = [] ∨ piece = ['.'] then none
  else if piece = ['.', '.'] then some .parent
  else some (.normal (String.ofList piece))

/-- The components a text names, separated by slashes. -/
def Component.all (cs : List Char) : List (Component String) :=
  (cs.splitOn '/').filterMap Component.ofPiece

def FilePath.ofText (s : String) : FilePath String :=
  ⟨s.toList.head? = some '/', Component.all s.toList⟩

/-- `Path::join`. -/
def joinPath (dir p : String) : String :=
  if p.toList.head? = some '/' then p
  else if dir = "" ∨ dir.toList.getLast? = some '/' then dir ++ p
  else dir ++ "/" ++ p

theorem Component.all_append_slash (front back : List Char) :
    all (front ++ '/' :: back) = all front ++ all back := by
  unfold all
  rw [List.splitOn_append_cons_self, List.filterMap_append]

theorem Component.all_append {front : List Char} (h : front.getLast? = some '/')
    (back : List Char) : all (front ++ back) = all front ++ all back := by
  obtain ⟨init, rfl⟩ := List.getLast?_eq_some_iff.mp h
  rw [List.append_assoc, List.singleton_append, all_append_slash, all_append_slash,
    show all [] = [] from rfl, List.append_nil]

namespace FilePath

/-- Joining texts joins the paths. -/
theorem ofText_joinPath (dir p : String) :
    ofText (joinPath dir p) = (ofText dir).join (ofText p) := by
  unfold joinPath join
  by_cases habs : p.toList.head? = some '/'
  · rw [if_pos habs, if_pos (show (ofText p).absolute = true from decide_eq_true habs)]
  rw [if_neg habs, if_neg (show ¬ (ofText p).absolute = true from fun h => habs (of_decide_eq_true h))]
  by_cases hempty : dir = ""
  · rw [if_pos (Or.inl hempty), hempty, String.empty_append]
    unfold ofText
    rw [decide_eq_false habs]
    rfl
  have hne : dir.toList ≠ [] := fun h => hempty (String.toList_inj.mp h)
  unfold ofText
  by_cases hlast : dir.toList.getLast? = some '/'
  · rw [if_pos (Or.inr hlast), String.toList_append, List.head?_append_of_ne_nil _ hne,
      Component.all_append hlast]
  · rw [if_neg (not_or.mpr ⟨hempty, hlast⟩), String.toList_append, String.toList_append,
      List.append_assoc, List.head?_append_of_ne_nil _ hne]
    rw [show "/".toList ++ p.toList = '/' :: p.toList from rfl, Component.all_append_slash]

example : (ofText (joinPath "/srv/work" "../etc//./x")).normalize = ofText "/srv/etc/x" := by decide

theorem ofText_joinPaths (dir : String) (ps : List String) :
    ofText (ps.foldl joinPath dir) = joined (ofText dir) (ps.map ofText) := by
  unfold joined
  induction ps generalizing dir with
  | nil => rfl
  | cons p ps ih => rw [List.foldl_cons, ih, ofText_joinPath, List.map_cons, List.foldl_cons]

/-- **Below any directory, exactly if nothing is absolute or takes back too much.** -/
theorem below_joinPaths_iff {ps : List String} :
    (∀ dir : String, Below (ofText dir) (ofText (ps.foldl joinPath dir)))
      ↔ Contained (ps.map ofText) := by
  refine ⟨fun h => ?_, fun h dir => ?_⟩
  · refine contained_of_below ?_
    have hempty := h ""
    rwa [ofText_joinPaths] at hempty
  · rw [ofText_joinPaths]
    exact h.below _

end FilePath

/-- A text that is one name. -/
structure PlainPiece (s : String) : Prop where
  ne_empty : s ≠ ""
  ne_dot : s ≠ "."
  ne_dots : s ≠ ".."
  slash : '/' ∉ s.toList

theorem FilePath.ofText_plain {s : String} (h : PlainPiece s) :
    ofText s = ⟨false, [.normal s]⟩ := by
  have hne : s.toList ≠ [] := fun he => h.ne_empty (String.toList_inj.mp he)
  have hhead : ¬ s.toList.head? = some '/' := fun he => h.slash (List.mem_of_mem_head? he)
  have hdot : s.toList ≠ ['.'] := fun he => h.ne_dot (String.toList_inj.mp he)
  have hdots : s.toList ≠ ['.', '.'] := fun he => h.ne_dots (String.toList_inj.mp he)
  have hpiece : Component.ofPiece s.toList = some (.normal s) := by
    unfold Component.ofPiece
    rw [if_neg (not_or.mpr ⟨hne, hdot⟩), if_neg hdots, String.ofList_toList]
  unfold ofText Component.all
  rw [decide_eq_false hhead, List.splitOn_eq_singleton h.slash,
    List.filterMap_cons_some hpiece, List.filterMap_nil]

namespace FilePath

theorem map_ofText_plain {ps : List String} (h : ∀ s ∈ ps, PlainPiece s) :
    ps.map ofText = ps.map fun s => ⟨false, [.normal s]⟩ :=
  List.map_congr_left fun s hs => ofText_plain (h s hs)

theorem stays_normal (depth : Nat) (ps : List String) : stays depth (ps.map .normal) = true := by
  induction ps generalizing depth with
  | nil => rfl
  | cons p ps ih => exact ih (depth + 1)

/-- Names lead nowhere else. -/
theorem contained_plain {ps : List String} (h : ∀ s ∈ ps, PlainPiece s) :
    Contained (ps.map ofText) := by
  rw [map_ofText_plain h]
  refine ⟨fun p hp => ?_, ?_⟩
  · obtain ⟨s, -, rfl⟩ := List.mem_map.mp hp
    rfl
  · rw [List.flatMap_map, ← List.map_eq_flatMap]
    exact stays_normal 0 ps

theorem ofText_joinPaths_plain {ps : List String} (h : ∀ s ∈ ps, PlainPiece s) (dir : String) :
    ofText (ps.foldl joinPath dir)
      = ⟨(ofText dir).absolute, (ofText dir).components ++ ps.map .normal⟩ := by
  rw [ofText_joinPaths, joined_of_relative (contained_plain h).1, map_ofText_plain h,
    List.flatMap_map, List.map_eq_flatMap]

theorem joinPaths_inj {ps qs : List String} (hp : ∀ s ∈ ps, PlainPiece s)
    (hq : ∀ s ∈ qs, PlainPiece s) {dir : String} (h : ps.foldl joinPath dir = qs.foldl joinPath dir) :
    ps = qs := by
  have hof := congrArg ofText h
  rw [ofText_joinPaths_plain hp, ofText_joinPaths_plain hq, FilePath.mk.injEq] at hof
  exact (List.map_inj_right fun _ _ => Component.normal.inj).mp (List.append_cancel_left hof.2)

end FilePath

/-! ## Files -/

/-- What is found at a path. -/
inductive FileAt (α : Type*) where
  /-- No file. -/
  | absent
  | unreadable (source : String)
  | file (content : α)

/-- There is a file, whether it can be read or not. -/
def FileAt.isFile {α : Type*} : FileAt α → Bool
  | .absent => false
  | _ => true

end Lib
