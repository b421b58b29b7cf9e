import Mathlib.Data.List.Forall2
import SynchrotronCD.Diff.Ownership
import SynchrotronCD.Lib.Text

/-!
# Ignore rules

A change that matches any of a set of rules is noise, and `IgnoreRules.apply`
drops it. A rule names one path: as a JSON pointer, or as a dotted glob whose
segments are matched one by one (`pathGlobMatches_iff`). Neither says anything
about what is below that path. The third kind goes by field manager.

In a glob `*` stands for a list element; the matcher lets it stand for any
segment.
-/

namespace SynchrotronCD

/-- A single ignore rule. -/
inductive IgnoreRule where
  /-- RFC-6901 JSON pointer; only the exact path matches. -/
  | jsonPointer (p : String)
  /-- Dotted glob with `*` for a list element; only the exact path matches. -/
  | pathGlob (g : String)
  /-- Paths that one of these field managers owns in live. -/
  | managerAllowlist (managers : List String)

/-- A bundle of rules. -/
structure IgnoreRules where
  rules : List IgnoreRule

/-! ## JSON pointers -/

def replaceChar (c : Char) (text s : String) : String :=
  String.ofList (s.toList.flatMap fun x => if x = c then text.toList else [x])

def escapePointer (s : String) : String := replaceChar '/' "~1" (replaceChar '~' "~0" s)

/-- The token of a segment; a list-map element goes by its first key. -/
def pointerToken : PathSegment → String
  | .field name => escapePointer name
  | .index i => toString i
  | .keyed keys => escapePointer ((keys.head?.map Prod.snd).getD "")

/-- A path as RFC-6901. -/
def pathToJsonPointer (path : ValuePath) : String :=
  String.join (path.map fun seg => "/" ++ pointerToken seg)

/-! ## Globs -/

def globSegments (glob : String) : List (List Char) :=
  if glob = "" then [] else glob.toList.splitOn '.'

def globSegmentMatches (p : List Char) : PathSegment → Bool
  | .field name => p == ['*'] || p == name.toList
  | .index _ | .keyed _ => p == ['*']

/-- Match a glob against a path, segment by segment. -/
def pathGlobMatches (glob : String) (path : ValuePath) : Bool :=
  let pat := globSegments glob
  pat.length == path.length && (pat.zip path).all fun s => globSegmentMatches s.1 s.2

/-- The segments match the path, one by one. -/
abbrev GlobMatch (pat : List (List Char)) (path : ValuePath) : Prop :=
  List.Forall₂ (fun p seg => globSegmentMatches p seg = true) pat path

theorem pathGlobMatches_iff {glob : String} {path : ValuePath} :
    pathGlobMatches glob path = true ↔ GlobMatch (globSegments glob) path := by
  unfold pathGlobMatches GlobMatch
  rw [List.forall₂_iff_zip, Bool.and_eq_true, beq_iff_eq, List.all_eq_true]
  refine ⟨?_, ?_⟩
  · intro hboth
    obtain ⟨hlen, hall⟩ := hboth
    exact ⟨hlen, fun h => hall _ h⟩
  · intro hboth
    obtain ⟨hlen, hall⟩ := hboth
    exact ⟨hlen, fun s hs => hall hs⟩

theorem globSegmentMatches_name {name : String} (h : name ≠ "*") {seg : PathSegment} :
    globSegmentMatches name.toList seg = true ↔ seg = .field name := by
  have hstar : (name.toList == ['*']) = false := by
    rw [beq_eq_false_iff_ne]
    exact fun he => h (String.toList_injective he)
  cases seg with
  | field name' =>
      rw [globSegmentMatches, hstar, Bool.false_or, beq_iff_eq, String.toList_inj,
        PathSegment.field.injEq]
      exact eq_comm
  | index i => simp [globSegmentMatches, hstar]
  | keyed keys => simp [globSegmentMatches, hstar]

theorem globMatch_name {name : String} (h : name ≠ "*") {pat : List (List Char)}
    {path : ValuePath} : GlobMatch (name.toList :: pat) path ↔
      ∃ rest, path = .field name :: rest ∧ GlobMatch pat rest := by
  rw [GlobMatch, List.forall₂_cons_left_iff]
  refine ⟨?_, ?_⟩
  · intro hex
    obtain ⟨seg, rest, hseg, hrest, rfl⟩ := hex
    exact ⟨rest, by rw [(globSegmentMatches_name h).mp hseg], hrest⟩
  · intro hex
    obtain ⟨rest, rfl, hrest⟩ := hex
    exact ⟨_, rest, (globSegmentMatches_name h).mpr rfl, hrest, rfl⟩

theorem globMatch_star {pat : List (List Char)} {path : ValuePath} :
    GlobMatch (['*'] :: pat) path ↔ ∃ seg rest, path = seg :: rest ∧ GlobMatch pat rest := by
  rw [GlobMatch, List.forall₂_cons_left_iff]
  refine ⟨?_, ?_⟩
  · intro hex
    obtain ⟨seg, rest, -, hrest, rfl⟩ := hex
    exact ⟨seg, rest, rfl, hrest⟩
  · intro hex
    obtain ⟨seg, rest, rfl, hrest⟩ := hex
    exact ⟨seg, rest, by cases seg <;> rfl, hrest, rfl⟩

/-! ## What a glob says -/

/-- The glob is these segments with dots between them; the empty glob has none. -/
def IsGlobOf (glob : String) (segs : List (List Char)) : Prop :=
  (∀ p ∈ segs, '.' ∉ p) ∧
    if segs = [] then glob = "" else glob ≠ "" ∧ glob.toList = ['.'].intercalate segs

/-- A segment of a glob and one of a path: the same literal, or a star. -/
inductive Corresponds : List Char → PathSegment → Prop
  | literal (name : String) : Corresponds name.toList (.field name)
  | star (seg : PathSegment) : Corresponds ['*'] seg

theorem corresponds_iff {p : List Char} {seg : PathSegment} :
    globSegmentMatches p seg = true ↔ Corresponds p seg := by
  constructor
  · intro h
    cases seg with
    | field name =>
        rw [globSegmentMatches, Bool.or_eq_true, beq_iff_eq, beq_iff_eq] at h
        rcases h with rfl | rfl
        · exact .star _
        · exact .literal name
    | index i =>
        obtain rfl := beq_iff_eq.mp h
        exact .star _
    | keyed keys =>
        obtain rfl := beq_iff_eq.mp h
        exact .star _
  · intro h
    cases h with
    | literal name => simp [globSegmentMatches]
    | star seg => cases seg <;> rfl

theorem isGlobOf_globSegments (glob : String) : IsGlobOf glob (globSegments glob) := by
  unfold IsGlobOf globSegments
  by_cases h : glob = ""
  · simp [h]
  · rw [if_neg h, if_neg (List.splitOn_ne_nil _ _), List.intercalate_splitOn]
    exact ⟨fun p hp => Lib.notMem_of_mem_splitOn hp, h, rfl⟩

/-- A glob has its segments in one way. -/
theorem globSegments_eq {glob : String} {segs : List (List Char)} (h : IsGlobOf glob segs) :
    globSegments glob = segs := by
  obtain ⟨hdots, hglob⟩ := h
  unfold globSegments
  split at hglob
  · rename_i hnil
    rw [if_pos hglob, hnil]
  · rename_i hne
    rw [if_neg hglob.1, hglob.2]
    exact List.splitOn_intercalate '.' hdots hne

/-- The glob of as many stars. -/
def starGlob (n : Nat) : String := ".".intercalate (List.replicate n "*")

theorem isGlobOf_starGlob (n : Nat) : IsGlobOf (starGlob n) (List.replicate n ['*']) := by
  refine ⟨fun p hp => ?_, ?_⟩
  · rw [List.eq_of_mem_replicate hp]
    decide
  · have htext : (starGlob n).toList = ['.'].intercalate (List.replicate n ['*']) := by
      rw [starGlob, String.toList_intercalate, List.map_replicate]
      rfl
    cases n with
    | zero => rfl
    | succ n =>
        rw [if_neg (by simp)]
        refine ⟨fun he => ?_, htext⟩
        -- the first star is there, so the glob is not empty
        rw [he, List.replicate_succ, List.intercalate] at htext
        cases n with
        | zero => simp at htext
        | succ n =>
            have hstar := (List.flatten_eq_nil_iff.mp htext.symm) ['*'] (by simp [List.replicate_succ])
            exact absurd hstar (List.cons_ne_nil _ _)

theorem forall₂_star {n : Nat} {path : ValuePath} :
    List.Forall₂ Corresponds (List.replicate n ['*']) path ↔ path.length = n := by
  constructor
  · intro h
    rw [← h.length_eq, List.length_replicate]
  · rintro rfl
    induction path with
    | nil => exact .nil
    | cons seg path ih => exact .cons (.star seg) ih

/-- A glob has no dot inside a segment, so a name with one is matched by a star only. -/
theorem corresponds_dotted {p : List Char} {name : String} (hp : '.' ∉ p)
    (hname : '.' ∈ name.toList) : Corresponds p (.field name) ↔ p = ['*'] := by
  constructor
  · intro h
    cases h with
    | literal => exact absurd hname hp
    | star => rfl
  · rintro rfl
    exact .star _

/-! ## Rules -/

def IgnoreRule.matches (path : ValuePath) (live : Manifest) : IgnoreRule → Bool
  | .jsonPointer p => pathToJsonPointer path == p
  | .pathGlob g => pathGlobMatches g path
  | .managerAllowlist managers => pathOwnedByAny path live.body.value managers

/--
**A glob matches exactly what it says.**

A glob has its segments in one way, and a rule with it matches a path if and only if these
correspond to the segments of the path one to one: to a field its name or a star, to a
list element of either kind a star. A name is one segment, with dots or without:
as many stars match the paths of that length, so that every path is matched by some
glob, and none but a star stands for a name with a dot.
-/
theorem pathGlob_matches_exactly (live : Manifest) :
    (∀ glob, ∃! segs, IsGlobOf glob segs)
    ∧ (∀ glob path, (IgnoreRule.pathGlob glob).matches path live = true ↔
        ∃ segs, IsGlobOf glob segs ∧ List.Forall₂ Corresponds segs path)
    ∧ (∀ n path, (IgnoreRule.pathGlob (starGlob n)).matches path live = true ↔ path.length = n)
    ∧ (∀ path, ∃ glob, (IgnoreRule.pathGlob glob).matches path live = true)
    ∧ ∀ glob segs, IsGlobOf glob segs → ∀ p ∈ segs, ∀ name : String, '.' ∈ name.toList →
        (Corresponds p (.field name) ↔ p = ['*']) := by
  have hmatch : ∀ glob path, (IgnoreRule.pathGlob glob).matches path live = true ↔
      List.Forall₂ Corresponds (globSegments glob) path := by
    intro glob path
    rw [IgnoreRule.matches, pathGlobMatches_iff]
    exact ⟨.imp fun _ _ => corresponds_iff.mp, .imp fun _ _ => corresponds_iff.mpr⟩
  have hstars : ∀ n path,
      (IgnoreRule.pathGlob (starGlob n)).matches path live = true ↔ path.length = n := by
    intro n path
    rw [hmatch, globSegments_eq (isGlobOf_starGlob n), forall₂_star]
  refine ⟨?_, ?_, hstars, ?_, ?_⟩
  · intro glob
    exact ⟨globSegments glob, isGlobOf_globSegments glob, fun _ h => (globSegments_eq h).symm⟩
  · intro glob path
    rw [hmatch]
    constructor
    · intro h
      exact ⟨_, isGlobOf_globSegments glob, h⟩
    · rintro ⟨segs, hsegs, h⟩
      rwa [globSegments_eq hsegs]
  · intro path
    exact ⟨starGlob path.length, (hstars _ _).mpr rfl⟩
  · intro glob segs hsegs p hp name hname
    exact corresponds_dotted (hsegs.1 p hp) hname

/-- An annotation's key is one segment of a path. -/
example : pathGlobMatches "metadata.annotations.*"
    [.field "metadata", .field "annotations", .field "example.com/owner"] = true := by decide

def IgnoreRules.isEmpty (me : IgnoreRules) : Bool := me.rules.isEmpty

/-- Any of the rules matches. -/
def IgnoreRules.matches (me : IgnoreRules) (change : Change) (live : Manifest) : Bool :=
  me.rules.any fun rule => rule.matches change.path live

namespace IgnoreRules

/-- Drop the changes that a rule matches. -/
def apply (me : IgnoreRules) (diff : Diff) (live : Manifest) : Diff :=
  if me.isEmpty then diff
  else ⟨diff.changes.filter fun c => !me.matches c live⟩

theorem matches_eq_true {me : IgnoreRules} {c : Change} {live : Manifest} :
    me.matches c live = true ↔ ∃ rule ∈ me.rules, rule.matches c.path live = true := by
  rw [IgnoreRules.matches, List.any_eq_true]

/-- **A change stays exactly when no rule matches it.** -/
theorem mem_apply {me : IgnoreRules} {diff : Diff} {live : Manifest} {c : Change} :
    c ∈ (me.apply diff live).changes ↔ c ∈ diff.changes ∧ me.matches c live = false := by
  unfold apply
  cases he : me.isEmpty with
  | false => simp [List.mem_filter]
  | true =>
      have hnil : me.rules = [] := List.isEmpty_iff.mp he
      have hno : me.matches c live = false := by
        unfold IgnoreRules.matches
        rw [hnil]
        rfl
      simp [hno]

end IgnoreRules

end SynchrotronCD
