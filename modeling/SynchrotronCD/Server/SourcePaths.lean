import SynchrotronCD.Lib.Text
import SynchrotronCD.Plugins.Helm
import SynchrotronCD.Plugins.Kustomize
import SynchrotronCD.Server.Pipeline

/-!
# Which directory is rendered

The path of an application is cleaned and joined to the working directory; the plugins
join what their parameters say to that. The cleaned path leads nowhere but below the
working directory (`sourcePath_below`). The parameters are not cleaned.

`rendered_inside_iff`: what is rendered, and every values file, is below the working
directory exactly if the parameters are relative and take back no more than the names of
the cleaned path.
-/

namespace SynchrotronCD.Db.Pipeline

open Lib

/-- `subpath`: the cleaned path in the working directory. -/
def sourcePath (workDir path : String) : String :=
  let clean := (subpath path).foldl joinPath ""
  if clean = "" then workDir else joinPath workDir clean

theorem plainPiece_of_mem_subpath {path s : String} (h : s ∈ subpath path) : PlainPiece s := by
  unfold subpath at h
  obtain ⟨hmem, hclean⟩ := List.mem_filter.mp h
  obtain ⟨piece, hpiece, rfl⟩ := List.mem_map.mp hmem
  have hnot := of_decide_eq_true hclean
  simp only [List.mem_cons, List.not_mem_nil, or_false, not_or] at hnot
  refine ⟨hnot.1, hnot.2.1, hnot.2.2, ?_⟩
  rw [String.toList_ofList]
  exact notMem_of_mem_splitOn hpiece

theorem plain_subpath (path : String) : ∀ s ∈ subpath path, PlainPiece s :=
  fun _ h => plainPiece_of_mem_subpath h

theorem ofText_sourcePath (workDir path : String) : FilePath.ofText (sourcePath workDir path)
    = .ofText ((subpath path).foldl joinPath workDir) := by
  have hclean := FilePath.ofText_joinPaths_plain (plain_subpath path) ""
  have hwork := FilePath.ofText_joinPaths_plain (plain_subpath path) workDir
  rw [hwork]
  unfold sourcePath
  dsimp only
  split
  · rename_i hempty
    rw [hempty] at hclean
    have hnil : (subpath path).map Component.normal = [] :=
      (congrArg FilePath.components hclean).symm
    rw [hnil, List.append_nil]
  · rw [FilePath.ofText_joinPath, hclean]
    rfl

/-- **The cleaned path stays in the working directory.** -/
theorem sourcePath_below (workDir path : String) :
    FilePath.Below (.ofText workDir) (.ofText (sourcePath workDir path)) := by
  rw [ofText_sourcePath]
  exact FilePath.below_joinPaths_iff.mpr (FilePath.contained_plain (plain_subpath path)) workDir

/-- The same with what is joined to it. -/
theorem ofText_joinPaths_sourcePath (workDir path : String) (ps : List String) :
    FilePath.ofText (ps.foldl joinPath (sourcePath workDir path))
      = .ofText ((subpath path ++ ps).foldl joinPath workDir) := by
  rw [List.foldl_append, FilePath.ofText_joinPaths, FilePath.ofText_joinPaths, ofText_sourcePath]

/-! ## The plugins -/

/-- Whatever is on disk, the chart and the values files are in the working directory. -/
def HelmInside (path : String) (params : Helm.RenderParams) : Prop :=
  ∀ (workDir : String) (files : Helm.Files) (dir : String),
    Helm.resolveChartDir files (sourcePath workDir path) params = .ok dir →
      FilePath.Below (.ofText workDir) (.ofText dir)
        ∧ ∀ file ∈ Helm.valuesPaths dir params, FilePath.Below (.ofText workDir) (.ofText file)

/-- Whatever is on disk, the kustomization is in the working directory. -/
def KustomizeInside (path : String) (params : Kustomize.RenderParams) : Prop :=
  ∀ (workDir : String) (files : Kustomize.Files) (dir : String),
    Kustomize.resolveKustomizationDir files (sourcePath workDir path) params = .ok dir →
      FilePath.Below (.ofText workDir) (.ofText dir)

/-- What is joined to the working directory takes back no more than it names. -/
def StaysInside (path : String) (params : List String) : Prop :=
  FilePath.Contained ((subpath path ++ params).map FilePath.ofText)

instance (path : String) (params : List String) : Decidable (StaysInside path params) :=
  inferInstanceAs (Decidable (FilePath.Contained _))

theorem staysInside_iff {path : String} {ps : List String} : StaysInside path ps
    ↔ ∀ workDir : String,
      FilePath.Below (.ofText workDir) (.ofText (ps.foldl joinPath (sourcePath workDir path))) := by
  unfold StaysInside
  rw [← FilePath.below_joinPaths_iff]
  simp only [ofText_joinPaths_sourcePath]

theorem resolveChartDir_ok {files : Helm.Files} {source dir : String} {params : Helm.RenderParams} :
    Helm.resolveChartDir files source params = .ok dir
      ↔ dir = params.chartPath.toList.foldl joinPath source
        ∧ (files (joinPath dir "Chart.yaml")).isFile = true := by
  have heq : Helm.resolveChartDir files source params
      = (fun dir : String => if !(files (joinPath dir "Chart.yaml")).isFile then .error (.chartMissing dir)
        else .ok dir) (params.chartPath.toList.foldl joinPath source) := by
    unfold Helm.resolveChartDir
    cases params.chartPath <;> rfl
  rw [heq]
  dsimp only
  generalize params.chartPath.toList.foldl joinPath source = chart
  constructor
  · intro h
    split at h
    · exact nomatch h
    · rename_i hfile
      obtain rfl := Except.ok.inj h
      exact ⟨rfl, by simpa using hfile⟩
  · rintro ⟨rfl, hfile⟩
    rw [hfile]
    rfl

theorem resolveKustomizationDir_ok {files : Kustomize.Files} {source dir : String}
    {params : Kustomize.RenderParams} : Kustomize.resolveKustomizationDir files source params = .ok dir
      ↔ dir = params.path.toList.foldl joinPath source
        ∧ (Kustomize.kustomizationFile files dir).isSome = true := by
  have heq : Kustomize.resolveKustomizationDir files source params
      = (fun dir : String => (Kustomize.kustomizationFile files dir).elim (.error (.missing dir))
        fun _ => .ok dir) (params.path.toList.foldl joinPath source) := by
    unfold Kustomize.resolveKustomizationDir
    cases params.path with
    | none => cases hkf : Kustomize.kustomizationFile files source <;> simp [hkf]
    | some rel => cases hkf : Kustomize.kustomizationFile files (joinPath source rel) <;> simp [hkf]
  rw [heq]
  dsimp only
  generalize params.path.toList.foldl joinPath source = built
  constructor
  · intro h
    cases hkf : Kustomize.kustomizationFile files built with
    | none =>
        rw [hkf] at h
        exact nomatch h
    | some kf =>
        rw [hkf] at h
        obtain rfl := Except.ok.inj h
        exact ⟨rfl, by rw [hkf]; rfl⟩
  · rintro ⟨rfl, hfile⟩
    obtain ⟨kf, hkf⟩ := Option.isSome_iff_exists.mp hfile
    rw [hkf]
    rfl

theorem helmInside_iff (path : String) (params : Helm.RenderParams) :
    HelmInside path params ↔ StaysInside path params.chartPath.toList
      ∧ ∀ file ∈ params.valuesFiles, StaysInside path (params.chartPath.toList ++ [file]) := by
  constructor
  · intro h
    have hall := fun workDir => h workDir (fun _ => .file "") _ (resolveChartDir_ok.mpr ⟨rfl, rfl⟩)
    refine ⟨staysInside_iff.mpr fun workDir => (hall workDir).1, fun file hfile => ?_⟩
    refine staysInside_iff.mpr fun workDir => ?_
    rw [List.foldl_append]
    exact (hall workDir).2 _ (List.mem_map_of_mem hfile)
  · rintro ⟨hchart, hvalues⟩ workDir files dir hdir
    obtain ⟨rfl, -⟩ := resolveChartDir_ok.mp hdir
    refine ⟨staysInside_iff.mp hchart workDir, fun file hfile => ?_⟩
    obtain ⟨f, hf, rfl⟩ := List.mem_map.mp hfile
    have hbelow := staysInside_iff.mp (hvalues f hf) workDir
    rwa [List.foldl_append] at hbelow

theorem kustomizeInside_iff (path : String) (params : Kustomize.RenderParams) :
    KustomizeInside path params ↔ StaysInside path params.path.toList := by
  rw [staysInside_iff]
  constructor
  · intro h workDir
    exact h workDir (fun _ => .file (.ok .null)) _ (resolveKustomizationDir_ok.mpr ⟨rfl, rfl⟩)
  · intro h workDir files dir hdir
    obtain ⟨rfl, -⟩ := resolveKustomizationDir_ok.mp hdir
    exact h workDir

/-- **Inside the working directory, exactly if what the parameters say leads nowhere else.** -/
theorem rendered_inside_iff (path : String) (helm : Helm.RenderParams)
    (kustomize : Kustomize.RenderParams) :
    (HelmInside path helm ↔ StaysInside path helm.chartPath.toList
        ∧ ∀ file ∈ helm.valuesFiles, StaysInside path (helm.chartPath.toList ++ [file]))
      ∧ (KustomizeInside path kustomize ↔ StaysInside path kustomize.path.toList) :=
  ⟨helmInside_iff path helm, kustomizeInside_iff path kustomize⟩

/-- A chart outside the working directory. -/
def climbingChart : Helm.RenderParams := ⟨"web", some "../../other", none, [], [], false⟩

theorem chart_outside : ¬ HelmInside "charts" climbingChart := by
  intro h
  obtain ⟨⟨names, hn⟩, -⟩ := h "/srv/shop" (fun _ => .file "") "/srv/shop/charts/../../other" (by decide)
  rw [FilePath.mk.injEq] at hn
  have hlead : [.normal "srv", .normal "other"]
      = [.normal "srv", .normal "shop"] ++ names.map Component.normal := hn.2
  simp at hlead

end SynchrotronCD.Db.Pipeline
