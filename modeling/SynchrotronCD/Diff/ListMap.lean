import SynchrotronCD.Lib.Assoc
import SynchrotronCD.Plugins.Manifest

/-!
# Paths into manifest bodies, and the list-map registry

A path is a sequence of segments: a field of a mapping, an index of a list, or
the identifying fields of an element of a list-map. The registry says which lists
of a kind are list-maps, by a dotted pattern in which `*` stands for any segment.
-/

namespace SynchrotronCD

open Lib

inductive PathSegment where
  /-- Field of a mapping. -/
  | field (name : String)
  /-- Element of a positional list. -/
  | index (i : Nat)
  /-- Element of a list-map, with its key fields in the registered order. -/
  | keyed (keys : List (String × String))
deriving DecidableEq, Repr

/-- The segments of a path, from the root of the body down. -/
abbrev ValuePath := List PathSegment

namespace ValuePath

def root : ValuePath := []

def push (p : ValuePath) (seg : PathSegment) : ValuePath := p ++ [seg]

def field (p : ValuePath) (name : String) : ValuePath := p.push (.field name)

def index (p : ValuePath) (i : Nat) : ValuePath := p.push (.index i)

def keyed (p : ValuePath) (keys : List (String × String)) : ValuePath := p.push (.keyed keys)

end ValuePath

/-- How to identify elements of a list-map. -/
structure ListMapKind where
  /-- Dotted path with `*` for list elements. -/
  pathPattern : String
  /-- Field names on each element that together identify it. -/
  keys : List String
deriving DecidableEq, Repr

/-- Registry of list-map descriptors. -/
structure ListMapKeys where
  byKind : HashMap Gvk (List ListMapKind)
  /-- Patterns that apply to every kind. -/
  universal : List ListMapKind

namespace ListMapKeys

def new : ListMapKeys := ⟨∅, []⟩

/-- Register a list-map descriptor for a kind. -/
def register (me : ListMapKeys) (gvk : Gvk) (desc : ListMapKind) : ListMapKeys :=
  { me with byKind := me.byKind.insert gvk ((me.byKind.lookup gvk).getD [] ++ [desc]) }

/-- A path in the form patterns are matched against: list elements become `*`. -/
def renderForMatch : ValuePath → List Char
  | [] => []
  | .field name :: rest => name.toList ++ tail rest
  | _ :: rest => ".*".toList ++ tail rest
where
  /-- Behind the first segment a field is set off by a dot. -/
  tail : ValuePath → List Char
    | [] => []
    | .field name :: rest => '.' :: name.toList ++ tail rest
    | _ :: rest => ".*".toList ++ tail rest

def patternMatches (pattern rendered : List Char) : Bool :=
  let p := pattern.splitOn '.'
  let r := rendered.splitOn '.'
  p.length == r.length && (p.zip r).all fun s => s.1 == ['*'] || s.1 == s.2

/-- The keys of the first descriptor whose pattern matches. -/
def firstMatch (rules : List ListMapKind) (rendered : List Char) : Option (List String) :=
  (rules.find? fun k => patternMatches k.pathPattern.toList rendered).map ListMapKind.keys

/-- The keys identifying the elements of the list at `path`, if it is a registered list-map:
universal patterns first, then those of the exact kind, then those of any version of it. -/
def keysFor (me : ListMapKeys) (gvk : Gvk) (path : ValuePath) : Option (List String) :=
  let rendered := renderForMatch path
  firstMatch me.universal rendered
    <|> firstMatch ((me.byKind.lookup gvk).getD []) rendered
    <|> firstMatch ((me.byKind.lookup { gvk with version := "*" }).getD []) rendered

/-! ## The built-in registry -/

def podTemplatePatterns : List ListMapKind := [
  ⟨"spec.containers", ["name"]⟩,
  ⟨"spec.initContainers", ["name"]⟩,
  ⟨"spec.ephemeralContainers", ["name"]⟩,
  ⟨"spec.containers.*.env", ["name"]⟩,
  ⟨"spec.containers.*.envFrom", ["name"]⟩,
  ⟨"spec.containers.*.ports", ["containerPort", "protocol"]⟩,
  ⟨"spec.containers.*.volumeMounts", ["mountPath"]⟩,
  ⟨"spec.initContainers.*.env", ["name"]⟩,
  ⟨"spec.initContainers.*.volumeMounts", ["mountPath"]⟩,
  ⟨"spec.volumes", ["name"]⟩,
  ⟨"spec.imagePullSecrets", ["name"]⟩,
  ⟨"spec.tolerations", ["key", "operator", "effect"]⟩,
  ⟨"spec.template.spec.containers", ["name"]⟩,
  ⟨"spec.template.spec.initContainers", ["name"]⟩,
  ⟨"spec.template.spec.containers.*.env", ["name"]⟩,
  ⟨"spec.template.spec.containers.*.envFrom", ["name"]⟩,
  ⟨"spec.template.spec.containers.*.ports", ["containerPort", "protocol"]⟩,
  ⟨"spec.template.spec.containers.*.volumeMounts", ["mountPath"]⟩,
  ⟨"spec.template.spec.initContainers.*.env", ["name"]⟩,
  ⟨"spec.template.spec.initContainers.*.volumeMounts", ["mountPath"]⟩,
  ⟨"spec.template.spec.volumes", ["name"]⟩,
  ⟨"spec.template.spec.imagePullSecrets", ["name"]⟩,
  ⟨"spec.template.spec.tolerations", ["key", "operator", "effect"]⟩]

/-- The kinds that hold a pod spec, by group. -/
def workloadKinds : List (String × String) := [
  ("", "Pod"),
  ("apps", "Deployment"),
  ("apps", "StatefulSet"),
  ("apps", "DaemonSet"),
  ("apps", "ReplicaSet"),
  ("batch", "Job"),
  ("batch", "CronJob")]

/-- Built-in defaults for common workload kinds. -/
def defaults : ListMapKeys :=
  let me : ListMapKeys := { new with universal := [
    ⟨"metadata.ownerReferences", ["uid"]⟩,
    ⟨"metadata.managedFields", ["manager", "operation"]⟩] }
  let me := workloadKinds.foldl (fun me k =>
    podTemplatePatterns.foldl (fun me pat => me.register ⟨k.1, "*", k.2⟩ pat) me) me
  me.register ⟨"", "*", "Service"⟩ ⟨"spec.ports", ["port", "protocol"]⟩

end ListMapKeys

end SynchrotronCD
