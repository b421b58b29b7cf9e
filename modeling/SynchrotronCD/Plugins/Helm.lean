import SynchrotronCD.Lib.Paths
import SynchrotronCD.Reconcile.Wave

/-!
# The Helm plugin

The directory of the chart, and the values files that go with it.
-/

namespace SynchrotronCD.Helm

open Lib

abbrev Files := String → FileAt String

/-- Parameters the application passes to the plugin. -/
structure RenderParams where
  releaseName : String
  /-- Subdirectory within the source path; its root if there is none. -/
  chartPath : Option String
  releaseNamespace : Option String
  /-- Resolved against the directory of the chart. -/
  valuesFiles : List String
  /-- By key. -/
  setValues : List (String × String)
  dependencyUpdate : Bool
deriving DecidableEq, Repr

inductive HelmError where
  | chartMissing (path : String)
deriving DecidableEq, Repr

def resolveChartDir (files : Files) (sourcePath : String) (params : RenderParams) :
    Except HelmError String :=
  let dir := match params.chartPath with
    | some rel => joinPath sourcePath rel
    | none => sourcePath
  if !(files (joinPath dir "Chart.yaml")).isFile then .error (.chartMissing dir) else .ok dir

/-- The values files that are passed to `helm`. -/
def valuesPaths (chartDir : String) (params : RenderParams) : List String :=
  params.valuesFiles.map (joinPath chartDir)

end SynchrotronCD.Helm
