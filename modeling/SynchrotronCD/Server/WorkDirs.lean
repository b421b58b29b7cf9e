import SynchrotronCD.Server.PipelineProof

/-!
# What is in a working directory

The render loop materializes one commit after the other, each into a directory named by
its repository and the first seven characters of the commit. A materialization can be
interrupted, with the file it was at in any state, and a plugin can write into the
directory it was handed; nothing is ever removed.

`handed_exact_iff`: what is handed to the renderer is the commit's tree, each time, exactly
if nothing was put into the same directory before but files of that tree.
-/

namespace SynchrotronCD.Db.Pipeline

open Lib Git

/-! ## Files in the order they are written -/

mutual

def objectFiles (path : List String) : Object → List (List String × File)
  | .tree entries => treeFiles path entries
  | .blob file => [(path, file)]
  | .other => []

/-- The files of a tree, as `write_tree` comes to them. -/
def treeFiles (base : List String) : List (String × Object) → List (List String × File)
  | [] => []
  | (name, o) :: rest => objectFiles (base ++ [name]) o ++ treeFiles base rest

end

def writeFiles (files : List (List String × File)) (dir : Dir) : Dir :=
  files.foldl (fun dir w => Function.update dir w.1 (some w.2)) dir

theorem writeFiles_append (as bs : List (List String × File)) (dir : Dir) :
    writeFiles (as ++ bs) dir = writeFiles bs (writeFiles as dir) := List.foldl_append

/-- Nothing is removed, and nothing else is added. -/
theorem writeFiles_ne_none {files : List (List String × File)} {dir : Dir} {p : List String} :
    writeFiles files dir p ≠ none ↔ dir p ≠ none ∨ p ∈ files.map Prod.fst := by
  induction files generalizing dir with
  | nil => simp [writeFiles]
  | cons w files ih =>
      have hstep : writeFiles (w :: files) dir
          = writeFiles files (Function.update dir w.1 (some w.2)) := rfl
      rw [hstep, ih, List.map_cons, List.mem_cons, Function.update_apply]
      by_cases h : p = w.1
      · simp [h]
      · simp [h]

mutual

theorem object_write_eq (path : List String) : ∀ (o : Object) (dir : Dir),
    o.write path dir = writeFiles (objectFiles path o) dir
  | .tree entries, dir => by
      unfold Object.write objectFiles
      exact writeTree_eq path entries dir
  | .blob file, dir => by
      unfold Object.write objectFiles
      rfl
  | .other, dir => by
      unfold Object.write objectFiles
      rfl

theorem writeTree_eq (base : List String) : ∀ (t : Tree) (dir : Dir),
    writeTree base t dir = writeFiles (treeFiles base t) dir
  | [], dir => by
      unfold writeTree treeFiles
      rfl
  | (name, o) :: rest, dir => by
      unfold writeTree treeFiles
      rw [writeTree_eq base rest, object_write_eq (base ++ [name]) o, writeFiles_append]

end

theorem checkout_ne_none {t : Tree} {p : List String} :
    checkout t p ≠ none ↔ p ∈ (treeFiles [] t).map Prod.fst := by
  unfold checkout
  rw [writeTree_eq, writeFiles_ne_none]
  simp [Dir.empty]

/-! ## Materializations -/

/-- The loop materializes the commit of a job. -/
structure Materialization where
  job : Job
  /-- How many files were written before it was interrupted, and what was left of the next one,
  where it had been touched. -/
  stop : Option (Nat × Option File)

variable (trees : Sha → Tree)

namespace Materialization

variable (m : Materialization)

def files : List (List String × File) := treeFiles [] (trees m.job.head)

/-- What it has written. -/
def written : List (List String × File) :=
  match m.stop with
  | none => m.files trees
  | some (n, left) =>
    (m.files trees).take n
      ++ (((m.files trees).drop n).head?.bind fun w => left.map fun file => (w.1, file)).toList

end Materialization

/-- The working directories after files have been written into one of them. -/
def putFiles (work : String → Dir) (name : String) (files : List (List String × File)) :
    String → Dir :=
  Function.update work name (writeFiles files (work name))

def materialized (work : String → Dir) (m : Materialization) : String → Dir :=
  putFiles work m.job.workDir (m.written trees)

/-- What happens to the working directories. -/
inductive LoopStep where
  | materialize (m : Materialization)
  /-- A plugin writes into the directory it was handed, as `helm dependency update` does. -/
  | plugin (workDir : String) (files : List (List String × File))

namespace LoopStep

def dir : LoopStep → String
  | materialize m => m.job.workDir
  | plugin workDir _ => workDir

def written : LoopStep → List (List String × File)
  | materialize m => m.written trees
  | plugin _ files => files

end LoopStep

def loopStep (work : String → Dir) (e : LoopStep) : String → Dir :=
  putFiles work e.dir (e.written trees)

/-- What is handed over is the tree of the commit. -/
def HandedExact (work : String → Dir) : LoopStep → Prop
  | .materialize m =>
    m.stop = none → materialized trees work m m.job.workDir = checkout (trees m.job.head)
  | .plugin _ _ => True

/-- Before, nothing put a file into the directory of `m` that `m` does not write as well. -/
def NothingElse (start : String → Dir) (before : List LoopStep) (m : Materialization) : Prop :=
  ∀ p, (start m.job.workDir p ≠ none
      ∨ ∃ e ∈ before, e.dir = m.job.workDir ∧ p ∈ (e.written trees).map Prod.fst) →
    p ∈ (m.files trees).map Prod.fst

variable {trees}

theorem putFiles_ne_none {work : String → Dir} {name dir : String}
    {files : List (List String × File)} {p : List String} : putFiles work dir files name p ≠ none
      ↔ work name p ≠ none ∨ dir = name ∧ p ∈ files.map Prod.fst := by
  unfold putFiles
  by_cases h : dir = name
  · subst h
    rw [Function.update_self, writeFiles_ne_none, and_iff_right rfl]
  · rw [Function.update_of_ne (Ne.symm h), or_iff_left (not_and_of_not_left _ h)]

theorem materialized_exact_iff {work : String → Dir} {m : Materialization} (hstop : m.stop = none) :
    materialized trees work m m.job.workDir = checkout (trees m.job.head)
      ↔ ∀ p, work m.job.workDir p ≠ none → p ∈ (m.files trees).map Prod.fst := by
  have hwritten : m.written trees = treeFiles [] (trees m.job.head) := by
    unfold Materialization.written
    rw [hstop]
    rfl
  unfold materialized putFiles
  rw [Function.update_self, hwritten, ← writeTree_eq, writeTree_eq_checkout]
  refine forall_congr' fun p => ?_
  rw [← not_imp_not]
  exact imp_congr_right fun _ => checkout_ne_none

/-- What is in a directory was there at the start or has been put there. -/
theorem exec_loopStep_ne_none {start : String → Dir} {es : List LoopStep} {name : String}
    {p : List String} : exec (loopStep trees) start es name p ≠ none
      ↔ start name p ≠ none ∨ ∃ e ∈ es, e.dir = name ∧ p ∈ (e.written trees).map Prod.fst := by
  induction es generalizing start with
  | nil => simp
  | cons e es ih =>
      rw [exec_cons, ih, loopStep, putFiles_ne_none, or_assoc]
      simp only [List.mem_cons, exists_eq_or_imp]

theorem materialized_after_iff {start : String → Dir} {before : List LoopStep} {m : Materialization}
    (hstop : m.stop = none) :
    materialized trees (exec (loopStep trees) start before) m m.job.workDir
        = checkout (trees m.job.head)
      ↔ NothingElse trees start before m := by
  rw [materialized_exact_iff hstop]
  refine forall_congr' fun p => ?_
  rw [exec_loopStep_ne_none]

/-- **What is handed over is the commit's tree, each time, exactly if nothing else was put into its
directory before.** -/
theorem handed_exact_iff (start : String → Dir) (es : List LoopStep) :
    Each (loopStep trees) (HandedExact trees) start es
      ↔ ∀ before m, before ++ [.materialize m] <+: es → m.stop = none →
        NothingElse trees start before m := by
  constructor
  · intro h before m hpre hstop
    exact (materialized_after_iff hstop).mp (h before _ hpre hstop)
  · intro h before e hpre
    cases e with
    | materialize m => exact fun hstop => (materialized_after_iff hstop).mpr (h before m hpre hstop)
    | plugin workDir files => trivial

/-- Two commits with the same first seven characters. -/
def firstJob : Job := ⟨shopRepo, shopRepo.url, "4f1c09ab3d5e6f708192a3b4c5d6e7f801234567"⟩

def secondJob : Job := ⟨shopRepo, shopRepo.url, "4f1c09ac8877665544332211ffeeddccbbaa9900"⟩

def collidingTrees (sha : Sha) : Tree :=
  if sha = firstJob.head then [("old.yaml", .blob ⟨[], false⟩)]
  else [("new.yaml", .blob ⟨[], false⟩)]

theorem leftover_is_handed_over :
    ¬ Each (loopStep collidingTrees) (HandedExact collidingTrees) (fun _ => .empty)
      [.materialize ⟨firstJob, none⟩, .materialize ⟨secondJob, none⟩] := by
  intro h
  have hexact := (materialized_after_iff rfl).mp
    (h [.materialize ⟨firstJob, none⟩] (.materialize ⟨secondJob, none⟩) (List.prefix_refl _) rfl)
  have hshort : short firstJob.head = short secondJob.head := by decide
  have hdir : firstJob.workDir = secondJob.workDir :=
    congrArg (fun name => shopRepo.id ++ "-" ++ name) hshort
  have hold : ["old.yaml"] ∈ ((⟨firstJob, none⟩ : Materialization).written collidingTrees).map Prod.fst := by
    decide
  have hfile := hexact ["old.yaml"] (Or.inr ⟨_, List.mem_singleton_self _, hdir, hold⟩)
  revert hfile
  decide

/-! ## Commits that do not collide -/

theorem Materialization.written_subset (m : Materialization) {p : List String}
    (h : p ∈ (m.written trees).map Prod.fst) : p ∈ (m.files trees).map Prod.fst := by
  unfold written at h
  split at h
  · exact h
  · rename_i n left _
    rw [List.map_append] at h
    rcases List.mem_append.mp h with h | h
    · exact List.map_subset _ (List.take_subset _ _) h
    · obtain ⟨w, hw, rfl⟩ := List.mem_map.mp h
      obtain ⟨next, hnext, hleft⟩ := Option.bind_eq_some_iff.mp (Option.mem_toList.mp hw)
      obtain ⟨file, -, rfl⟩ := Option.map_eq_some_iff.mp hleft
      have hmem : next ∈ m.files trees :=
        List.drop_subset _ _ (List.mem_of_mem_head? (Option.mem_def.mpr hnext))
      exact List.mem_map.mpr ⟨next, hmem, rfl⟩

/-- In an empty workspace, while no two commits share a directory and no plugin writes into one,
interruptions do no harm. -/
theorem each_handedExact {es : List LoopStep}
    (h : ∀ m, .materialize m ∈ es → ∀ e ∈ es, e.dir = m.job.workDir →
      ∃ m', e = .materialize m' ∧ m'.job.head = m.job.head) :
    Each (loopStep trees) (HandedExact trees) (fun _ => .empty) es := by
  intro before e hpre
  cases e with
  | plugin workDir files => trivial
  | materialize m =>
      intro hstop
      refine (materialized_after_iff hstop).mpr fun p hp => ?_
      have hm : .materialize m ∈ es := hpre.subset (List.mem_append_right _ (List.mem_singleton_self _))
      rcases hp with hp | ⟨e, he, hdir, hp⟩
      · exact absurd rfl hp
      · obtain ⟨m', rfl, hhead⟩ := h m hm e (hpre.subset (List.mem_append_left _ he)) hdir
        have hfile := m'.written_subset hp
        unfold Materialization.files at hfile ⊢
        rwa [hhead] at hfile

/-! ## The loop's materializations -/

/-- A failed attempt leaves what an interrupted materialization leaves. -/
def Interrupts (site : Site) (s : State) : Event → Prop
  | .materialize (some (_, left)) => ∀ job apps, s.stage = .listed job apps →
      ∃ stop, left = materialized site.trees s.disk.work ⟨job, some stop⟩ job.workDir
  | _ => True

theorem disk_materialize_work (d : Disk) (job : Job) (fault : Option (GitError × Dir))
    (h : ∀ err left, fault = some (err, left) →
      ∃ stop, left = materialized trees d.work ⟨job, some stop⟩ job.workDir) :
    (d.materialize trees job.repo job.head job.workDir fault).1.work = d.work
      ∨ ∃ m, (d.materialize trees job.repo job.head job.workDir fault).1.work
        = materialized trees d.work m := by
  unfold Disk.materialize
  cases d.bares job.repo.id with
  | none => exact Or.inl rfl
  | some bare =>
  dsimp only
  split
  · exact Or.inl rfl
  right
  cases fault with
  | none =>
      refine ⟨⟨job, none⟩, ?_⟩
      show Function.update d.work job.workDir _ = _
      rw [writeTree_eq]
      rfl
  | some f =>
      obtain ⟨err, left⟩ := f
      obtain ⟨stop, hleft⟩ := h err left rfl
      refine ⟨⟨job, some stop⟩, ?_⟩
      show Function.update d.work job.workDir left = _
      rw [hleft]
      unfold materialized putFiles
      rw [Function.update_self]

theorem materialize_work [Sha256] (site : Site) (s : State) (fault : Option (GitError × Dir))
    (h : Interrupts site s (.materialize fault)) :
    (s.materialize site fault).disk.work = s.disk.work
      ∨ ∃ m, (s.materialize site fault).disk.work = materialized site.trees s.disk.work m := by
  unfold State.materialize
  split
  · rename_i job apps hstage
    have hdisk := @disk_materialize_work site.trees s.disk job fault fun err left hf => by
      subst hf
      exact h job apps hstage
    generalize s.disk.materialize site.trees job.repo job.head job.workDir fault = r at hdisk
    obtain ⟨disk, res⟩ := r
    cases res <;> exact hdisk
  · exact Or.inl rfl

/-- **A step of the server leaves the working directories alone or is a materialization.** -/
theorem step_work [Sha256] [FloatText] (site : Site) (s : State) (e : Event)
    (h : Interrupts site s e) : (step site s e).disk.work = s.disk.work
      ∨ ∃ m, (step site s e).disk.work = materialized site.trees s.disk.work m := by
  cases e with
  | poll id clone answer =>
      left
      show (s.poll site id clone answer).disk.work = s.disk.work
      rcases s.poll_cases site id clone answer with heq | ⟨repo, -, heq⟩
      · rw [heq]
      · rw [heq]
        exact (Disk.asked_fetch s.disk repo clone answer).work
  | bridge id => exact Or.inl (congrArg Disk.work (s.bridge_frame site id).disk)
  | receive =>
      left
      show (s.receive site).disk.work = s.disk.work
      rcases s.receive_cases site with heq | ⟨ev, rest, -, -, heq⟩ <;> rw [heq]
  | list =>
      left
      show s.list.disk.work = s.disk.work
      rcases s.list_cases with heq | ⟨job, apps, -, -, heq⟩ <;> rw [heq]
  | materialize fault => exact materialize_work site s fault h
  | render =>
      left
      show (s.render site).disk.work = s.disk.work
      rcases s.render_cases site with heq | ⟨job, app, todo, -, ⟨manifests, -, heq⟩ | ⟨err, -, heq⟩⟩
      · rw [heq]
      · rw [heq, (State.publish_frame _ _).disk]
      · rw [heq, (State.publish_frame _ _).disk]
  | createApp req id now =>
      left
      show (s.createApp req id now).disk.work = s.disk.work
      unfold State.createApp
      split
      · rw [(State.publish_frame _ _).disk]
      · rfl
  | updateApp name body now =>
      left
      show (s.updateApp name body now).disk.work = s.disk.work
      unfold State.updateApp
      split <;> rfl
  | pollLag id n => exact Or.inl rfl
  | subscribe => exact Or.inl rfl
  | lag n => exact Or.inl rfl
  | evict key => exact Or.inl rfl
  | deleteApp name => exact Or.inl rfl

/-- A run of the server does to the working directories what a sequence of materializations
does. -/
theorem exec_work [Sha256] [FloatText] (site : Site) (s : State) {es : List Event}
    (h : Each (step site) (Interrupts site) s es) :
    ∃ ms : List Materialization, (exec (step site) s es).disk.work
      = exec (loopStep site.trees) s.disk.work (ms.map .materialize) := by
  induction es using List.reverseRecOn with
  | nil => exact ⟨[], rfl⟩
  | append_singleton es e ih =>
      rw [each_snoc] at h
      obtain ⟨ms, hms⟩ := ih h.1
      rw [exec_snoc]
      rcases step_work site _ e h.2 with hsame | ⟨m, hm⟩
      · exact ⟨ms, hsame.trans hms⟩
      · refine ⟨ms ++ [m], ?_⟩
        rw [List.map_append, List.map_singleton, exec_snoc, hm, hms]
        rfl

end SynchrotronCD.Db.Pipeline
