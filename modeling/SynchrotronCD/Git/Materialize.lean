import SynchrotronCD.Git.Client
import SynchrotronCD.Lib.Paths

/-!
# What materializing a commit does to the file system

A tree as the object database has it: a name is any text, or no text at all, and an
object may be missing. The walk attempts one operation after the other on the paths it
joins, and ends at the first that fails.

`materialize_inside_iff`: the operations stay below the target directory, whatever it
is and however the walk ends, exactly if no entry that is reached has names that lead
out of it.
-/

namespace SynchrotronCD.Git

open Lib

/-! ## The walk -/

/-- What the object database has of an entry. -/
inductive RawObject where
  | tree (entries : List (Option String × RawObject))
  | blob (content : List UInt8) (filemode : Nat)
  /-- A tree or a blob that cannot be read. -/
  | missingTree (message : String)
  | missingBlob (message : String)
  /-- A submodule, for one. -/
  | other

/-- A name is `none` if it is not UTF-8. -/
abbrev RawTree := List (Option String × RawObject)

/-- An operation on the file system. -/
inductive FsOp where
  | createDirAll (path : String)
  | write (path : String) (content : List UInt8)
  | setMode (path : String) (mode : Nat)
deriving DecidableEq, Repr

def FsOp.path : FsOp → String
  | .createDirAll path => path
  | .write path _ => path
  | .setMode path _ => path

/-- What the system answers to an operation after others: why it fails, if it does. -/
abbrev Os := List FsOp → FsOp → Option String

/-- Attempts operations one after the other. -/
abbrev Io := List FsOp → List FsOp × Except GitError Unit

def Io.andThen (a b : Io) : Io := fun log =>
  match a log with
  | (log, .ok ()) => b log
  | (log, .error e) => (log, .error e)

def Io.stop (e : GitError) : Io := fun log => (log, .error e)

def Io.done : Io := fun log => (log, .ok ())

def perform (os : Os) (op : FsOp) : Io := fun log =>
  (log ++ [op], match os log op with
    | none => .ok ()
    | some source => .error (.io op.path source))

/-- Git stores the mode as e.g. 0o100644 / 0o100755; only the exec bit counts. -/
def applyFilemode (os : Os) (path : String) (mode : Nat) : Io :=
  perform os (.setMode path (if mode &&& 0o111 ≠ 0 then 0o755 else 0o644))

mutual

def RawObject.write (os : Os) (path : String) : RawObject → Io
  | .tree entries => (perform os (.createDirAll path)).andThen (writeRawTree os path entries)
  | .missingTree message => (perform os (.createDirAll path)).andThen (.stop (.git message))
  | .blob content mode =>
    (perform os (.write path content)).andThen (applyFilemode os path mode)
  | .missingBlob message => .stop (.git message)
  | .other => .done

/-- `write_tree`. -/
def writeRawTree (os : Os) (base : String) : List (Option String × RawObject) → Io
  | [] => .done
  | (none, _) :: _ => .stop (.invalidState "tree entry has non-utf8 name")
  | (some name, o) :: rest =>
    (o.write os (joinPath base name)).andThen (writeRawTree os base rest)

end

/-- `materialize`, with what is found of the commit in the clone. -/
def materializeAt (os : Os) (found : Except GitError RawTree) (target : String) : Io :=
  match found with
  | .error e => .stop e
  | .ok tree => (perform os (.createDirAll target)).andThen (writeRawTree os target tree)

/-! ## The names that are reached -/

/-- The names under which something is written, and whether the walk goes on. -/
abbrev Ways := List (List String) × Bool

def Ways.andThen (a b : Ways) : Ways := (a.1 ++ if a.2 then b.1 else [], a.2 && b.2)

mutual

def RawObject.ways (names : List String) : RawObject → Ways
  | .tree entries => Ways.andThen ([names], true) (treeWays names entries)
  | .missingTree _ => ([names], false)
  | .blob _ _ => ([names], true)
  | .missingBlob _ => ([], false)
  | .other => ([], true)

/-- An entry without a name, or without its object, ends the walk. -/
def treeWays (names : List String) : List (Option String × RawObject) → Ways
  | [] => ([], true)
  | (none, _) :: _ => ([], false)
  | (some name, o) :: rest => (o.ways (names ++ [name])).andThen (treeWays names rest)

end

/-- Attempts nothing but what is under these names, and all of it if nothing fails. -/
structure Follows (os : Os) (target : String) (ways : Ways) (io : Io) : Prop where
  log_sub : ∀ {log op}, op ∈ log → op ∈ (io log).1
  mem : ∀ {log op}, op ∈ (io log).1 →
    op ∈ log ∨ ∃ names ∈ ways.1, op.path = names.foldl joinPath target
  goes_on : ∀ {log}, (io log).2 = .ok () → ways.2 = true
  ok : (∀ log op, os log op = none) → ways.2 = true → ∀ log, (io log).2 = .ok ()
  reached : (∀ log op, os log op = none) → ∀ names ∈ ways.1, ∀ log,
    ∃ op ∈ (io log).1, op.path = names.foldl joinPath target

section

variable {os : Os} {target : String}

theorem Io.andThen_ok {a b : Io} {log : List FsOp} (h : (a log).2 = .ok ()) :
    (a.andThen b) log = b (a log).1 := by
  unfold andThen
  generalize a log = r at h
  obtain ⟨log', res⟩ := r
  cases h
  rfl

theorem Io.andThen_error {a b : Io} {log : List FsOp} {e : GitError} (h : (a log).2 = .error e) :
    (a.andThen b) log = a log := by
  unfold andThen
  generalize a log = r at h
  obtain ⟨log', res⟩ := r
  cases h
  rfl

theorem Follows.andThen {wa wb : Ways} {a b : Io} (ha : Follows os target wa a)
    (hb : Follows os target wb b) : Follows os target (wa.andThen wb) (a.andThen b) where
  log_sub {log op} hop := by
    cases hr : (a log).2 with
    | ok => rw [Io.andThen_ok hr]; exact hb.log_sub (ha.log_sub hop)
    | error e => rw [Io.andThen_error hr]; exact ha.log_sub hop
  mem {log op} hop := by
    cases hr : (a log).2 with
    | ok =>
        rw [Io.andThen_ok hr] at hop
        -- the second way is gone only where the first does not stop
        rcases hb.mem hop with hop | ⟨names, hn, hp⟩
        · exact (ha.mem hop).imp_right fun ⟨names, hn, hp⟩ =>
            ⟨names, List.mem_append_left _ hn, hp⟩
        · refine Or.inr ⟨names, List.mem_append_right _ ?_, hp⟩
          rwa [if_pos (ha.goes_on hr)]
    | error e =>
        rw [Io.andThen_error hr] at hop
        exact (ha.mem hop).imp_right fun ⟨names, hn, hp⟩ => ⟨names, List.mem_append_left _ hn, hp⟩
  goes_on {log} hok := by
    cases hr : (a log).2 with
    | ok =>
        rw [Io.andThen_ok hr] at hok
        exact Bool.and_eq_true_iff.mpr ⟨ha.goes_on hr, hb.goes_on hok⟩
    | error e =>
        rw [Io.andThen_error hr, hr] at hok
        cases hok
  ok quiet hgo log := by
    obtain ⟨hga, hgb⟩ := Bool.and_eq_true_iff.mp hgo
    rw [Io.andThen_ok (ha.ok quiet hga log)]
    exact hb.ok quiet hgb _
  reached quiet names hn log := by
    rcases List.mem_append.mp hn with hn | hn
    · obtain ⟨op, hop, hp⟩ := ha.reached quiet names hn log
      refine ⟨op, ?_, hp⟩
      cases hr : (a log).2 with
      | ok => rw [Io.andThen_ok hr]; exact hb.log_sub hop
      | error e => rwa [Io.andThen_error hr]
    · split at hn
      · rename_i hga
        rw [Io.andThen_ok (ha.ok quiet hga log)]
        exact hb.reached quiet names hn _
      · exact absurd hn List.not_mem_nil

theorem Follows.perform {op : FsOp} {names : List String} (hp : op.path = names.foldl joinPath target) :
    Follows os target ([names], true) (perform os op) where
  log_sub hop := List.mem_append_left _ hop
  mem hop := (List.mem_append.mp hop).imp_right fun h =>
    ⟨names, List.mem_singleton_self _, (congrArg FsOp.path (List.mem_singleton.mp h)).trans hp⟩
  goes_on _ := rfl
  ok quiet _ log := by
    unfold Git.perform
    rw [quiet log op]
  reached _ n hn log :=
    ⟨op, List.mem_append_right _ (List.mem_singleton_self _), List.mem_singleton.mp hn ▸ hp⟩

theorem Follows.stop (e : GitError) : Follows os target ([], false) (.stop e) where
  log_sub hop := hop
  mem hop := Or.inl hop
  goes_on h := nomatch h
  ok _ h := nomatch h
  reached _ _ hn := absurd hn List.not_mem_nil

theorem Follows.done : Follows os target ([], true) .done where
  log_sub hop := hop
  mem hop := Or.inl hop
  goes_on _ := rfl
  ok _ _ _ := rfl
  reached _ _ hn := absurd hn List.not_mem_nil

/-- Two operations under one name. -/
theorem Follows.twice {names : List String} {a b : Io} (ha : Follows os target ([names], true) a)
    (hb : Follows os target ([names], true) b) :
    Follows os target ([names], true) (a.andThen b) := by
  obtain ⟨h1, h2, h3, h4, h5⟩ := ha.andThen hb
  have hiff : ∀ n, n ∈ [names, names] ↔ n ∈ [names] := by simp
  exact ⟨h1, fun hop => (h2 hop).imp_right fun ⟨n, hn, hp⟩ => ⟨n, (hiff n).mp hn, hp⟩, h3, h4,
    fun quiet n hn => h5 quiet n ((hiff n).mpr hn)⟩

mutual

theorem RawObject.write_follows (names : List String) :
    ∀ o : RawObject, Follows os target (o.ways names) (o.write os (names.foldl joinPath target))
  | .tree entries => by
      unfold RawObject.write RawObject.ways
      exact (Follows.perform rfl).andThen (writeRawTree_follows names entries)
  | .blob content mode => by
      unfold RawObject.write RawObject.ways
      exact (Follows.perform rfl).twice (Follows.perform rfl)
  | .missingTree message => by
      unfold RawObject.write RawObject.ways
      exact (Follows.perform rfl).andThen (Follows.stop _)
  | .missingBlob message => by
      unfold RawObject.write RawObject.ways
      exact Follows.stop _
  | .other => by
      unfold RawObject.write RawObject.ways
      exact Follows.done

theorem writeRawTree_follows (names : List String) : ∀ entries : RawTree,
    Follows os target (treeWays names entries)
      (writeRawTree os (names.foldl joinPath target) entries)
  | [] => by
      unfold writeRawTree treeWays
      exact Follows.done
  | (none, _) :: _ => by
      unfold writeRawTree treeWays
      exact Follows.stop _
  | (some name, o) :: rest => by
      have ho := RawObject.write_follows (names ++ [name]) o
      rw [List.foldl_append, List.foldl_cons, List.foldl_nil] at ho
      unfold writeRawTree treeWays
      exact ho.andThen (writeRawTree_follows names rest)

end

end

/-! ## Inside the target -/

/-- Whatever the target and the answers, every operation is on a path below the target. -/
def MaterializesInside (tree : RawTree) : Prop :=
  ∀ (os : Os) (target : String), ∀ op ∈ (materializeAt os (.ok tree) target []).1,
    FilePath.Below (.ofText target) (.ofText op.path)

theorem materializeAt_follows (os : Os) (target : String) (tree : RawTree) :
    Follows os target (Ways.andThen ([[]], true) (treeWays [] tree))
      (materializeAt os (.ok tree) target) := by
  have hdir : Follows os target ([[]], true) (perform os (.createDirAll target)) := .perform rfl
  exact hdir.andThen (writeRawTree_follows [] tree)

theorem materializesInside_of_contained {tree : RawTree}
    (h : ∀ names ∈ (treeWays [] tree).1, FilePath.Contained (names.map FilePath.ofText)) :
    MaterializesInside tree := by
  intro os target op hop
  rcases (materializeAt_follows os target tree).mem hop with hop | ⟨names, hn, hp⟩
  · exact absurd hop List.not_mem_nil
  · rw [hp]
    rcases List.mem_append.mp hn with hn | hn
    · rw [List.mem_singleton.mp hn]
      exact FilePath.Below.refl _
    · exact FilePath.below_joinPaths_iff.mpr (h names hn) target

/-- **Inside the target, exactly if no entry that is reached leads out of it.** -/
theorem materialize_inside_iff (tree : RawTree) : MaterializesInside tree ↔
    ∀ names ∈ (treeWays [] tree).1, FilePath.Contained (names.map FilePath.ofText) := by
  refine ⟨fun h names hn => ?_, materializesInside_of_contained⟩
  refine FilePath.below_joinPaths_iff.mp fun target => ?_
  have hf := materializeAt_follows (fun _ _ => none) target tree
  obtain ⟨op, hop, hp⟩ := hf.reached (fun _ _ => rfl) names (List.mem_append_right _ hn) []
  rw [← hp]
  exact h _ target op hop

/-- A tree whose name is `..`. -/
def climbing : RawTree := [(some "..", .tree [(some "token", .blob [] 0o100644)])]

theorem materialize_climbs : ¬ MaterializesInside climbing := by
  intro h
  obtain ⟨names, hn⟩ := h (fun _ _ => none) "/srv/work" (.write "/srv/work/../token" [])
    (by decide)
  rw [FilePath.mk.injEq] at hn
  have hlead : [.normal "srv", .normal "token"]
      = [.normal "srv", .normal "work"] ++ names.map Component.normal := hn.2
  simp at hlead

/-! ## Plain names -/

def FsOp.apply : FsOp → (String → Option File) → String → Option File
  | .createDirAll _, files => files
  | .write path content, files =>
    Function.update files path (some ⟨content, ((files path).map File.executable).getD false⟩)
  | .setMode path mode, files =>
    Function.update files path ((files path).map fun f => { f with executable := mode &&& 0o111 ≠ 0 })

/-- The files after the operations. -/
def replay (log : List FsOp) (files : String → Option File) : String → Option File :=
  log.foldl (fun files op => op.apply files) files

mutual

/-- An object with what its file mode is. -/
def Object.raw : Object → RawObject
  | .tree entries => .tree (rawTree entries)
  | .blob file => .blob file.content (if file.executable then 0o100755 else 0o100644)
  | .other => .other

def rawTree : List (String × Object) → List (Option String × RawObject)
  | [] => []
  | (name, o) :: rest => (some name, o.raw) :: rawTree rest

end

mutual

def Object.Plain : Object → Prop
  | .tree entries => PlainTree entries
  | .blob _ => True
  | .other => True

/-- Every name is one. -/
def PlainTree : List (String × Object) → Prop
  | [] => True
  | (name, o) :: rest => PlainPiece name ∧ o.Plain ∧ PlainTree rest

end

/-- The files below a target are these, as far as their names are plain. -/
def Agree (target : String) (files : String → Option File) (dir : Dir) : Prop :=
  ∀ p : List String, (∀ n ∈ p, PlainPiece n) → files (p.foldl joinPath target) = dir p

/-- With nothing in its way, does to the files below a target what `w` does. -/
def Does (target : String) (io : Io) (w : Dir → Dir) : Prop :=
  ∀ (log : List FsOp) (files : String → Option File) (dir : Dir), Agree target (replay log files) dir →
    (io log).2 = .ok () ∧ Agree target (replay (io log).1 files) (w dir)

section

variable {os : Os} {target : String}

theorem Does.andThen {a b : Io} {wa wb : Dir → Dir} (ha : Does target a wa)
    (hb : Does target b wb) : Does target (a.andThen b) fun dir => wb (wa dir) := by
  intro log files dir h
  obtain ⟨hok, h⟩ := ha log files dir h
  rw [Io.andThen_ok hok]
  exact hb _ files _ h

theorem replay_append_singleton (log : List FsOp) (op : FsOp) (files : String → Option File) :
    replay (log ++ [op]) files = op.apply (replay log files) := by
  unfold replay
  rw [List.foldl_append]
  rfl

theorem perform_quiet (quiet : ∀ log op, os log op = none) (op : FsOp) (log : List FsOp) :
    perform os op log = (log ++ [op], .ok ()) := by
  unfold perform
  rw [quiet]

theorem Does.createDirAll (quiet : ∀ log op, os log op = none) (path : String) :
    Does target (perform os (.createDirAll path)) fun dir => dir := by
  intro log files dir h
  rw [perform_quiet quiet, replay_append_singleton]
  exact ⟨rfl, h⟩

/-- The content, then the mode. -/
theorem apply_write_setMode (path : String) (file : File) (files : String → Option File) :
    (FsOp.setMode path (if file.executable then 0o755 else 0o644)).apply
        ((FsOp.write path file.content).apply files)
      = Function.update files path (some file) := by
  have hbit : decide ((if file.executable then 0o755 else 0o644) &&& 0o111 ≠ 0) = file.executable := by
    cases file.executable <;> decide
  simp only [FsOp.apply, Function.update_idem, Function.update_self, Option.map_some, hbit]

theorem Agree.update {files : String → Option File} {dir : Dir} (h : Agree target files dir)
    {names : List String} (hn : ∀ n ∈ names, PlainPiece n) (file : File) :
    Agree target (Function.update files (names.foldl joinPath target) (some file))
      (Function.update dir names (some file)) := by
  intro p hp
  by_cases he : p = names
  · rw [he, Function.update_self, Function.update_self]
  · rw [Function.update_of_ne he,
      Function.update_of_ne fun hj => he (FilePath.joinPaths_inj hp hn hj)]
    exact h p hp

theorem Does.blob (quiet : ∀ log op, os log op = none) {names : List String}
    (hn : ∀ n ∈ names, PlainPiece n) (file : File) :
    Does target ((Object.blob file).raw.write os (names.foldl joinPath target))
      ((Object.blob file).write names) := by
  intro log files dir h
  have hmode : (if (if file.executable then 0o100755 else 0o100644) &&& 0o111 ≠ 0 then 0o755 else 0o644)
      = if file.executable then 0o755 else 0o644 := by
    cases file.executable <;> rfl
  unfold Object.raw RawObject.write Object.write applyFilemode
  rw [hmode, Io.andThen_ok (by rw [perform_quiet quiet]), perform_quiet quiet, perform_quiet quiet,
    replay_append_singleton, replay_append_singleton, apply_write_setMode]
  exact ⟨rfl, h.update hn file⟩

mutual

theorem Object.raw_write (quiet : ∀ log op, os log op = none) {names : List String}
    (hn : ∀ n ∈ names, PlainPiece n) : ∀ o : Object, o.Plain →
      Does target (o.raw.write os (names.foldl joinPath target)) (o.write names)
  | .tree entries, hp, log, files, dir, h => by
      unfold Object.Plain at hp
      unfold Object.raw RawObject.write Object.write
      exact (Does.createDirAll quiet _).andThen (writeRawTree_raw quiet hn entries hp) log files dir h
  | .blob file, _, log, files, dir, h => Does.blob quiet hn file log files dir h
  | .other, _, log, files, dir, h => by
      unfold Object.raw RawObject.write Object.write
      exact ⟨rfl, h⟩

/-- **For plain names the files below the target are the tree over what was there.** -/
theorem writeRawTree_raw (quiet : ∀ log op, os log op = none) {names : List String}
    (hn : ∀ n ∈ names, PlainPiece n) : ∀ entries : List (String × Object), PlainTree entries →
      Does target (writeRawTree os (names.foldl joinPath target) (rawTree entries))
        (writeTree names entries)
  | [], _, log, files, dir, h => by
      unfold rawTree writeRawTree writeTree
      exact ⟨rfl, h⟩
  | (name, o) :: rest, hp, log, files, dir, h => by
      unfold PlainTree at hp
      obtain ⟨hname, ho, hrest⟩ := hp
      have hn' : ∀ n ∈ names ++ [name], PlainPiece n :=
        List.forall_mem_append.mpr ⟨hn, List.forall_mem_singleton.mpr hname⟩
      have hwrite := Object.raw_write quiet hn' o ho
      rw [List.foldl_append, List.foldl_cons, List.foldl_nil] at hwrite
      unfold rawTree writeRawTree writeTree
      exact hwrite.andThen (writeRawTree_raw quiet hn rest hrest) log files dir h

end

end

/-- What `materialize` leaves below its target, over what was there. -/
theorem materializeAt_raw {os : Os} (quiet : ∀ log op, os log op = none) (target : String) {t : Tree}
    (hp : PlainTree t) (files : String → Option File) (dir : Dir) (h : Agree target files dir) :
    (materializeAt os (.ok (rawTree t)) target []).2 = .ok ()
      ∧ Agree target (replay (materializeAt os (.ok (rawTree t)) target []).1 files)
        (writeTree [] t dir) := by
  have hw : Does target (writeRawTree os target (rawTree t)) (writeTree [] t) :=
    writeRawTree_raw quiet (List.forall_mem_nil _) t hp
  exact (Does.createDirAll quiet target).andThen hw [] files dir h

mutual

theorem Object.raw_ways {names : List String} (hn : ∀ n ∈ names, PlainPiece n) :
    ∀ o : Object, o.Plain → ∀ way ∈ (o.raw.ways names).1, ∀ n ∈ way, PlainPiece n
  | .tree entries, hp, way, hw => by
      unfold Object.Plain at hp
      unfold Object.raw RawObject.ways at hw
      rcases List.mem_cons.mp hw with rfl | hw
      · exact hn
      · exact treeWays_raw hn entries hp way hw
  | .blob file, _, way, hw => by
      unfold Object.raw RawObject.ways at hw
      exact List.mem_singleton.mp hw ▸ hn
  | .other, _, way, hw => by
      unfold Object.raw RawObject.ways at hw
      exact absurd hw List.not_mem_nil

theorem treeWays_raw {names : List String} (hn : ∀ n ∈ names, PlainPiece n) :
    ∀ entries : List (String × Object), PlainTree entries →
      ∀ way ∈ (treeWays names (rawTree entries)).1, ∀ n ∈ way, PlainPiece n
  | [], _, way, hw => by
      unfold rawTree treeWays at hw
      exact absurd hw List.not_mem_nil
  | (name, o) :: rest, hp, way, hw => by
      unfold PlainTree at hp
      obtain ⟨hname, ho, hrest⟩ := hp
      unfold rawTree treeWays at hw
      rcases List.mem_append.mp hw with hw | hw
      · refine Object.raw_ways ?_ o ho way hw
        exact List.forall_mem_append.mpr ⟨hn, List.forall_mem_singleton.mpr hname⟩
      · split at hw
        · exact treeWays_raw hn rest hrest way hw
        · exact absurd hw List.not_mem_nil

end

/-- Plain names stay inside. -/
theorem materializesInside_plain {t : Tree} (hp : PlainTree t) : MaterializesInside (rawTree t) :=
  materializesInside_of_contained fun way hw =>
    FilePath.contained_plain (treeWays_raw (List.forall_mem_nil _) t hp way hw)

end SynchrotronCD.Git
