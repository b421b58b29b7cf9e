import SynchrotronCD.Health.Assess

/-!
# The outcome of a hook

A hook is a Job or a Pod that is run for a phase of a sync. Its status, as the API server
returns it, is polled until it says how the hook ended (`classify`).

The health check has a verdict on Jobs of its own (`assessJob`), from the conditions
alone; the runner falls back on counters. A Job that has lost a pod and is being
retried has failed for the one and is progressing for the other
(`job_verdicts_agree_iff`).
-/

namespace SynchrotronCD

open Lib

/-! ## JSON -/

namespace Value.Doc

/-- `serde_json::Value::get` with a key. -/
def get (d : Doc) (key : String) : Option Doc :=
  match d with
  | .obj kvs => (kvs.find? fun p => key == p.1).map Prod.snd
  | _ => none

def asStr (d : Doc) : Option String :=
  match d with
  | .str s => some s
  | _ => none

def asI64 (d : Doc) : Option Int :=
  match d with
  | .num (.posInt n) => if n.toNat < 2 ^ 63 then some n.toNat else none
  | .num (.negInt k) => some (-(k.val + 1))
  | _ => none

def asArray (d : Doc) : Option (List Doc) :=
  match d with
  | .arr xs => some xs
  | _ => none

end Value.Doc

/-! ## The runner -/

inductive HookOutcome where
  | succeeded
  | failed
deriving DecidableEq, Repr

/-- What a condition says about the end of a Job. -/
def conditionTerminal (c : Value.Doc) : Option HookOutcome := do
  let t ← (c.get "type").bind Value.Doc.asStr
  let s ← (c.get "status").bind Value.Doc.asStr
  if s ≠ "True" then none
  else match t with
    | "Complete" => some .succeeded
    | "Failed" => some .failed
    | _ => none

/-- A counter of a status; nothing counted if it is not there. -/
def counter (status : Value.Doc) (key : String) : Int :=
  ((status.get key).bind Value.Doc.asI64).getD 0

def classifyJob (status : Value.Doc) : Option HookOutcome :=
  let conditions := (status.get "conditions").bind Value.Doc.asArray
  match conditions.bind fun arr => arr.findSome? conditionTerminal with
  | some outcome => some outcome
  | none =>
    if counter status "succeeded" ≥ 1 then some .succeeded
    else if counter status "failed" ≥ 1 then some .failed
    else none

def classifyPod (status : Value.Doc) : Option HookOutcome :=
  match (status.get "phase").bind Value.Doc.asStr with
  | some "Succeeded" => some .succeeded
  | some "Failed" => some .failed
  | _ => none

/-- Read a terminal outcome from a `status`; `none` while the resource is in progress. -/
def classify (kind : String) (status : Value.Doc) : Option HookOutcome :=
  match kind with
  | "Job" => classifyJob status
  | "Pod" => classifyPod status
  | _ => none

/-- One poll of a Job: what its object says. -/
def jobOutcome (job : Value.Doc) : Option HookOutcome :=
  classify "Job" ((job.get "status").getD .null)

/-! ## The same status as JSON and as a value -/

namespace Value

theorem untag_ofJson (d : Doc) : (ofJson d).untag = ofJson d := by
  cases d <;> rfl

theorem find_ofJsonEntries (key : String) (kvs : List (String × Doc)) :
    ((ofJsonEntries kvs).find? fun p => beq (.string key) p.1)
      = (kvs.find? fun p => key == p.1).map fun p => (.string p.1, ofJson p.2) := by
  induction kvs with
  | nil => rfl
  | cons p kvs ih =>
      obtain ⟨k, v⟩ := p
      rw [ofJsonEntries, List.find?_cons, List.find?_cons, beq]
      cases key == k with
      | true => rfl
      | false => exact ih

theorem get_ofJson (d : Doc) (key : String) : (ofJson d).get key = (d.get key).map ofJson := by
  unfold get
  rw [untag_ofJson]
  cases d with
  | obj kvs =>
      rw [ofJson, Doc.get]
      dsimp only
      rw [find_ofJsonEntries, Option.map_map, Option.map_map]
      rfl
  | null | bool | num | str | arr => rfl

theorem asStr_ofJson (d : Doc) : (ofJson d).asStr = d.asStr := by
  cases d <;> rfl

theorem asSequence_ofJson (d : Doc) : (ofJson d).asSequence = d.asArray.map ofJsonList := by
  cases d <;> rfl

theorem ofJsonList_eq (xs : List Doc) : ofJsonList xs = xs.map ofJson := by
  induction xs with
  | nil => rfl
  | cons x xs ih => rw [ofJsonList, ih, List.map_cons]

end Value

/-- A condition, by its type and its status. -/
abbrev JobCondition := Option String × Option String

def jobCondition (c : Value.Doc) : JobCondition :=
  ((c.get "type").bind Value.Doc.asStr, (c.get "status").bind Value.Doc.asStr)

/-- The conditions in a status, in their order. -/
def jobConditions (status : Value.Doc) : List JobCondition :=
  (((status.get "conditions").bind Value.Doc.asArray).getD []).map jobCondition

/-- The Job has completed. -/
abbrev jobComplete : JobCondition := (some "Complete", some "True")

/-- The Job has failed. -/
abbrev jobFailed : JobCondition := (some "Failed", some "True")

/-- What a condition says about the end of a Job, by its type and status. -/
def endOf (c : JobCondition) : Option HookOutcome :=
  if c = jobComplete then some .succeeded else if c = jobFailed then some .failed else none

theorem conditionTerminal_eq (c : Value.Doc) : conditionTerminal c = endOf (jobCondition c) := by
  unfold conditionTerminal endOf jobCondition
  cases ht : (c.get "type").bind Value.Doc.asStr with
  | none => simp
  | some t =>
      cases hs : (c.get "status").bind Value.Doc.asStr with
      | none => simp
      | some s =>
          simp only [Option.bind_eq_bind, Option.bind_some, Prod.mk.injEq, Option.some.injEq]
          grind

/-- What the counters say, if the conditions say nothing. -/
def endByCounters (status : Value.Doc) : Option HookOutcome :=
  if counter status "succeeded" ≥ 1 then some .succeeded
  else if counter status "failed" ≥ 1 then some .failed
  else none

theorem classifyJob_eq (status : Value.Doc) : classifyJob status =
    ((jobConditions status).findSome? endOf).or (endByCounters status) := by
  have hconditions : (((status.get "conditions").bind Value.Doc.asArray).bind
      fun arr => arr.findSome? conditionTerminal) = (jobConditions status).findSome? endOf := by
    have hend : conditionTerminal = endOf ∘ jobCondition := funext conditionTerminal_eq
    unfold jobConditions
    rw [List.findSome?_map, hend]
    cases (status.get "conditions").bind Value.Doc.asArray <;> rfl
  unfold classifyJob
  dsimp only
  rw [hconditions]
  cases (jobConditions status).findSome? endOf <;> rfl

theorem strField_ofJson (c : Value.Doc) (key : String) :
    ((Value.ofJson c).get key).bind Value.asStr = (c.get key).bind Value.Doc.asStr := by
  rw [Value.get_ofJson]
  cases c.get key with
  | none => rfl
  | some v => exact Value.asStr_ofJson v

theorem findCondition_ofJson (status : Value.Doc) (type : String) :
    Health.findCondition (.ofJson status) type =
      ((((status.get "conditions").bind Value.Doc.asArray).getD []).find?
        fun c => (jobCondition c).1 = some type).map Value.ofJson := by
  unfold Health.findCondition
  rw [Value.get_ofJson]
  cases status.get "conditions" with
  | none => rfl
  | some conditions =>
      rw [Option.map_some, Option.bind_some, Option.bind_some, Value.asSequence_ofJson]
      cases conditions.asArray with
      | none => rfl
      | some cs =>
          rw [Option.map_some, Option.bind_some, Value.ofJsonList_eq, List.find?_map]
          have htype : (fun c => decide ((c.get "type").bind Value.asStr = some type)) ∘ Value.ofJson
              = fun c => decide ((jobCondition c).1 = some type) := by
            funext c
            rw [Function.comp_apply, strField_ofJson]
            rfl
          rw [htype]
          rfl

/-- The condition of a type that the health check looks at: the first one. -/
theorem conditionIs_ofJson (status : Value.Doc) (type : String) :
    Health.conditionIs (.ofJson status) type "True" = true ↔
      (jobConditions status).find? (fun c => c.1 = some type) = some (some type, some "True") := by
  unfold Health.conditionIs jobConditions
  rw [findCondition_ofJson, List.find?_map]
  cases hfind : (((status.get "conditions").bind Value.Doc.asArray).getD []).find?
      ((fun c => decide (c.1 = some type)) ∘ jobCondition) with
  | none =>
      have hnone : (((status.get "conditions").bind Value.Doc.asArray).getD []).find?
          (fun c => decide ((jobCondition c).1 = some type)) = none := hfind
      rw [hnone]
      simp
  | some c =>
      have hsome : (((status.get "conditions").bind Value.Doc.asArray).getD []).find?
          (fun c => decide ((jobCondition c).1 = some type)) = some c := hfind
      have htype : (jobCondition c).1 = some type := by
        simpa using List.find?_some hsome
      rw [hsome]
      dsimp only [Option.map_some]
      rw [Health.conditionStatus, strField_ofJson, decide_eq_true_iff, Option.some.injEq,
        Prod.ext_iff]
      exact ⟨fun h => ⟨htype, h⟩, fun h => h.2⟩

/-! ## When the verdicts agree -/

/-- The verdict of the health check. -/
def jobHealth (job : Value.Doc) : HealthStatusCode := (Health.assessJob (.ofJson job)).status

/-- Succeeded exactly if healthy, and failed exactly if degraded. -/
@[mk_iff]
structure VerdictsAgree (job : Value.Doc) : Prop where
  succeeded : jobOutcome job = some .succeeded ↔ jobHealth job = .healthy
  failed : jobOutcome job = some .failed ↔ jobHealth job = .degraded

/-- What conditions and counters have to be for one verdict. -/
inductive Unanimous (cs : List JobCondition) (succeeded failed : Int) : Prop
  /-- No condition says that the Job has ended, and neither counter does. -/
  | running (notComplete : jobComplete ∉ cs) (notFailed : jobFailed ∉ cs)
      (noSuccess : succeeded < 1) (noFailure : failed < 1)
  /-- The first condition `Failed` is true, and none before it says that the Job has completed. -/
  | failed {pre post : List JobCondition} (split : cs = pre ++ jobFailed :: post)
      (first : ∀ c ∈ pre, c.1 ≠ some "Failed") (notComplete : jobComplete ∉ pre)
  /-- The first condition `Complete` is true, none before it says that the Job has failed, and
  nor does the first condition `Failed`. -/
  | complete {pre post : List JobCondition} (split : cs = pre ++ jobComplete :: post)
      (first : ∀ c ∈ pre, c.1 ≠ some "Complete") (notFailed : jobFailed ∉ pre)
      (failedNot : cs.find? (fun c => c.1 = some "Failed") ≠ some jobFailed)

theorem jobHealth_degraded (job : Value.Doc) : jobHealth job = .degraded ↔
    (jobConditions ((job.get "status").getD .null)).find? (fun c => c.1 = some "Failed")
      = some jobFailed := by
  unfold jobHealth Health.assessJob Health.statusOf
  rw [Value.get_ofJson]
  cases job.get "status" with
  | none => exact ⟨nofun, nofun⟩
  | some status =>
      rw [Option.getD_some, ← conditionIs_ofJson]
      dsimp only [Option.map_some]
      split
      · exact iff_of_true rfl ‹_›
      · refine iff_of_false ?_ ‹_›
        split
        · exact nofun
        · split <;> exact nofun

theorem jobHealth_healthy (job : Value.Doc) : jobHealth job = .healthy ↔
    (jobConditions ((job.get "status").getD .null)).find? (fun c => c.1 = some "Complete")
        = some jobComplete
      ∧ (jobConditions ((job.get "status").getD .null)).find? (fun c => c.1 = some "Failed")
        ≠ some jobFailed := by
  unfold jobHealth Health.assessJob Health.statusOf
  rw [Value.get_ofJson]
  cases job.get "status" with
  | none => exact ⟨nofun, fun h => nomatch h.1⟩
  | some status =>
      rw [Option.getD_some, ← conditionIs_ofJson, Ne, ← conditionIs_ofJson]
      dsimp only [Option.map_some]
      split
      · rename_i hfailed
        exact ⟨nofun, fun h => absurd hfailed h.2⟩
      · rename_i hfailed
        split
        · rename_i hcomplete
          exact iff_of_true rfl ⟨hcomplete, hfailed⟩
        · rename_i hcomplete
          refine iff_of_false ?_ fun h => hcomplete h.1
          split <;> exact nofun

theorem endOf_eq_none {c : JobCondition} : endOf c = none ↔ c ≠ jobComplete ∧ c ≠ jobFailed := by
  unfold endOf
  grind

theorem endOf_eq_succeeded {c : JobCondition} : endOf c = some .succeeded ↔ c = jobComplete := by
  unfold endOf
  grind

theorem endOf_eq_failed {c : JobCondition} : endOf c = some .failed ↔ c = jobFailed := by
  unfold endOf
  grind

/-- The first condition of a type is true exactly if it is true where the type first stands. -/
theorem find_type_iff {pre post : List JobCondition} {type : String}
    (hpre : (some type, some "True") ∉ pre) :
    (pre ++ (some type, some "True") :: post).find? (fun c => c.1 = some type)
        = some (some type, some "True")
      ↔ ∀ c ∈ pre, c.1 ≠ some type := by
  rw [List.find?_append]
  cases hfind : pre.find? (fun c => c.1 = some type) with
  | none =>
      refine iff_of_true (by simp) fun c hc => ?_
      simpa using List.find?_eq_none.mp hfind c hc
  | some c =>
      have hc := List.mem_of_find?_eq_some hfind
      refine iff_of_false ?_ fun h => h c hc (by simpa using List.find?_some hfind)
      rw [Option.some_or, Option.some.injEq]
      rintro rfl
      exact hpre hc

theorem endByCounters_eq_none {status : Value.Doc} : endByCounters status = none ↔
    counter status "succeeded" < 1 ∧ counter status "failed" < 1 := by
  unfold endByCounters
  grind

/-- No condition says that the Job has ended. -/
theorem findSome_endOf_eq_none {cs : List JobCondition} :
    cs.findSome? endOf = none ↔ jobComplete ∉ cs ∧ jobFailed ∉ cs := by
  rw [List.findSome?_eq_none_iff]
  constructor
  · intro h
    exact ⟨fun hc => (endOf_eq_none.mp (h _ hc)).1 rfl, fun hc => (endOf_eq_none.mp (h _ hc)).2 rfl⟩
  · rintro ⟨hcomplete, hfailed⟩ c hc
    exact endOf_eq_none.mpr ⟨fun he => hcomplete (he ▸ hc), fun he => hfailed (he ▸ hc)⟩

/-- The first condition that says it. -/
theorem findSome_endOf_eq_some {cs : List JobCondition} {outcome : HookOutcome}
    {ending : JobCondition} (hending : ∀ c, endOf c = some outcome ↔ c = ending) :
    cs.findSome? endOf = some outcome
      ↔ ∃ pre post, cs = pre ++ ending :: post ∧ jobComplete ∉ pre ∧ jobFailed ∉ pre := by
  rw [List.findSome?_eq_some_iff]
  constructor
  · rintro ⟨pre, c, post, hsplit, hc, hpre⟩
    obtain rfl := (hending c).mp hc
    exact ⟨pre, post, hsplit, findSome_endOf_eq_none.mp (List.findSome?_eq_none_iff.mpr hpre)⟩
  · rintro ⟨pre, post, hsplit, hpre⟩
    exact ⟨pre, ending, post, hsplit, (hending ending).mpr rfl,
      List.findSome?_eq_none_iff.mp (findSome_endOf_eq_none.mpr hpre)⟩

theorem jobOutcome_eq (job : Value.Doc) : jobOutcome job =
    ((jobConditions ((job.get "status").getD .null)).findSome? endOf).or
      (endByCounters ((job.get "status").getD .null)) := classifyJob_eq _

theorem unanimous_of_agree {job : Value.Doc} (h : VerdictsAgree job) :
    Unanimous (jobConditions ((job.get "status").getD .null))
      (counter ((job.get "status").getD .null) "succeeded")
      (counter ((job.get "status").getD .null) "failed") := by
  obtain ⟨hsucceeded, hfailed⟩ := h
  rw [jobOutcome_eq, jobHealth_healthy] at hsucceeded
  rw [jobOutcome_eq, jobHealth_degraded] at hfailed
  cases hend : (jobConditions ((job.get "status").getD .null)).findSome? endOf with
  | none =>
      rw [hend, Option.none_or] at hsucceeded hfailed
      obtain ⟨hcomplete, hfail⟩ := findSome_endOf_eq_none.mp hend
      have hcounters : endByCounters ((job.get "status").getD .null) = none := by
        cases hc : endByCounters ((job.get "status").getD .null) with
        | none => rfl
        | some outcome =>
            cases outcome with
            | succeeded => exact absurd (List.mem_of_find?_eq_some (hsucceeded.mp hc).1) hcomplete
            | failed => exact absurd (List.mem_of_find?_eq_some (hfailed.mp hc)) hfail
      obtain ⟨hs, hf⟩ := endByCounters_eq_none.mp hcounters
      exact .running hcomplete hfail hs hf
  | some outcome =>
      rw [hend, Option.some_or] at hsucceeded hfailed
      cases outcome with
      | succeeded =>
          obtain ⟨pre, post, hsplit, hcomplete, hfail⟩ :=
            (findSome_endOf_eq_some fun _ => endOf_eq_succeeded).mp hend
          obtain ⟨hfirst, hother⟩ := hsucceeded.mp rfl
          rw [hsplit] at hfirst
          exact .complete hsplit ((find_type_iff hcomplete).mp hfirst) hfail hother
      | failed =>
          obtain ⟨pre, post, hsplit, hcomplete, hfail⟩ :=
            (findSome_endOf_eq_some fun _ => endOf_eq_failed).mp hend
          have hfirst := hfailed.mp rfl
          rw [hsplit] at hfirst
          exact .failed hsplit ((find_type_iff hfail).mp hfirst) hcomplete

theorem agree_of_unanimous {job : Value.Doc}
    (h : Unanimous (jobConditions ((job.get "status").getD .null))
      (counter ((job.get "status").getD .null) "succeeded")
      (counter ((job.get "status").getD .null) "failed")) : VerdictsAgree job := by
  rw [verdictsAgree_iff, jobOutcome_eq, jobHealth_healthy, jobHealth_degraded]
  cases h with
  | running notComplete notFailed noSuccess noFailure =>
      rw [findSome_endOf_eq_none.mpr ⟨notComplete, notFailed⟩, Option.none_or,
        endByCounters_eq_none.mpr ⟨noSuccess, noFailure⟩]
      refine ⟨iff_of_false nofun fun h => ?_, iff_of_false nofun fun h => ?_⟩
      · exact notComplete (List.mem_of_find?_eq_some h.1)
      · exact notFailed (List.mem_of_find?_eq_some h)
  | @failed pre post split first notComplete =>
      have hpre : jobFailed ∉ pre := fun h => first _ h rfl
      have hend := (findSome_endOf_eq_some fun _ => endOf_eq_failed).mpr
        ⟨pre, post, split, notComplete, hpre⟩
      have hfirst : (jobConditions ((job.get "status").getD .null)).find?
          (fun c => c.1 = some "Failed") = some jobFailed := by
        rw [split]
        exact (find_type_iff hpre).mpr first
      rw [hend, hfirst]
      exact ⟨iff_of_false nofun fun h => h.2 rfl, iff_of_true rfl rfl⟩
  | @complete pre post split first notFailed failedNot =>
      have hpre : jobComplete ∉ pre := fun h => first _ h rfl
      have hend := (findSome_endOf_eq_some fun _ => endOf_eq_succeeded).mpr
        ⟨pre, post, split, hpre, notFailed⟩
      have hfirst : (jobConditions ((job.get "status").getD .null)).find?
          (fun c => c.1 = some "Complete") = some jobComplete := by
        rw [split]
        exact (find_type_iff hpre).mpr first
      rw [hend, hfirst]
      exact ⟨iff_of_true rfl ⟨rfl, failedNot⟩, iff_of_false nofun failedNot⟩

/--
**When the two verdicts on a Job agree.**

For every Job: the runner takes it for succeeded exactly if the health check calls it
healthy, and for failed exactly if degraded, if and only if its conditions and counters
are unanimous: neither says that it has ended, or the first condition of its type
does, and no other contradicts it.
-/
theorem job_verdicts_agree_iff (job : Value.Doc) : VerdictsAgree job ↔
    Unanimous (jobConditions ((job.get "status").getD .null))
      (counter ((job.get "status").getD .null) "succeeded")
      (counter ((job.get "status").getD .null) "failed") :=
  ⟨unanimous_of_agree, agree_of_unanimous⟩

/-- A Job that has lost a pod and runs another one. -/
def retriedJob : Value.Doc :=
  .obj [("spec", .obj [("backoffLimit", .num (.posInt 6))]),
    ("status", .obj [("active", .num (.posInt 1)), ("failed", .num (.posInt 1))])]

/-- It has failed for the runner, and is progressing for the health check. -/
theorem retried_job_failed : ¬ VerdictsAgree retriedJob
    ∧ jobOutcome retriedJob = some .failed ∧ jobHealth retriedJob = .progressing := by
  have houtcome : jobOutcome retriedJob = some .failed := by decide
  have hhealth : jobHealth retriedJob = .progressing := by decide
  refine ⟨fun h => ?_, houtcome, hhealth⟩
  have hdegraded := h.failed.mp houtcome
  rw [hhealth] at hdegraded
  exact absurd hdegraded nofun

end SynchrotronCD
