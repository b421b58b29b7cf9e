import SynchrotronCD.Git.Client
import SynchrotronCD.Plugins.Manifest

/-!
# Rendering an application

The cache-aware façade over the plugin registry: try the cache, dispatch on a
miss. What a plugin makes of a source directory is a parameter; the plugins
besides `raw` are processes of their own.

A cached render is found again by the application's name, the commit and the
parameters. The plugin, the path and the repository are not part of the key.
-/

namespace SynchrotronCD

open Lib Git

/-- A directory that is checked out, and a path inside it. -/
structure SourcePath where
  workDir : Dir
  path : List String

/-- What rendering a source with a plugin and its parameters yields. -/
abbrev Registry := String → SourcePath → Value.Doc → Except String (List Manifest)

structure AppCacheKey where
  appId : String
  commitHash : Sha
  paramsHash : List UInt8
deriving DecidableEq, Repr

/-- Cached renders; which entries a full cache evicts is left open. -/
abbrev AppCache := HashMap AppCacheKey (List Manifest)

/-- Inputs to a single render of one app. -/
structure AppRenderSpec where
  appId : String
  commitHash : Sha
  plugin : String
  sourcePath : SourcePath
  params : Value.Doc

section

variable [Sha256] [FloatText]

def AppCacheKey.hashParams (params : Value.Doc) : List UInt8 :=
  Sha256.digest (String.ofList params.print).toUTF8.data.toList

/-- The cache key this spec maps to. -/
def AppRenderSpec.cacheKey (spec : AppRenderSpec) : AppCacheKey :=
  ⟨spec.appId, spec.commitHash, AppCacheKey.hashParams spec.params⟩

/-- What a render without the cache yields. -/
def AppRenderSpec.fresh (spec : AppRenderSpec) (registry : Registry) :
    Except String (List Manifest) :=
  registry spec.plugin spec.sourcePath spec.params

/-- Render, consulting the cache for a hit before dispatching. -/
def AppRenderSpec.render (spec : AppRenderSpec) (registry : Registry) (cache : AppCache) :
    AppCache × Except String (List Manifest) :=
  match cache.lookup spec.cacheKey with
  | some hit => (cache, .ok hit)
  | none =>
    match spec.fresh registry with
    | .ok rendered => (cache.insert spec.cacheKey rendered, .ok rendered)
    | .error e => (cache, .error e)

/-- What is rendered was cached, or is fresh. -/
theorem AppRenderSpec.render_ok {spec : AppRenderSpec} {registry : Registry} {cache : AppCache}
    {manifests : List Manifest} (h : (spec.render registry cache).2 = .ok manifests) :
    cache.lookup spec.cacheKey = some manifests ∨ spec.fresh registry = .ok manifests := by
  unfold AppRenderSpec.render at h
  cases hit : cache.lookup spec.cacheKey with
  | some cached =>
      rw [hit] at h
      exact Or.inl (congrArg some (Except.ok.inj h))
  | none =>
      rw [hit] at h
      cases hf : spec.fresh registry with
      | error e => rw [hf] at h; simp at h
      | ok rendered =>
          rw [hf] at h
          exact Or.inr (congrArg Except.ok (Except.ok.inj h))

/-- What a cache holds after a render: what it held, and what was rendered. -/
theorem AppRenderSpec.lookup_render {spec : AppRenderSpec} {registry : Registry} {cache : AppCache}
    {key : AppCacheKey} {manifests : List Manifest}
    (h : (spec.render registry cache).1.lookup key = some manifests) :
    cache.lookup key = some manifests ∨ (key = spec.cacheKey ∧ spec.fresh registry = .ok manifests) := by
  unfold AppRenderSpec.render at h
  cases hit : cache.lookup spec.cacheKey with
  | some cached => rw [hit] at h; exact Or.inl h
  | none =>
      rw [hit] at h
      cases hf : spec.fresh registry with
      | error e => rw [hf] at h; exact Or.inl h
      | ok rendered =>
          rw [hf] at h
          dsimp only at h
          by_cases hkey : key = spec.cacheKey
          · rw [hkey, AList.lookup_insert] at h
            exact Or.inr ⟨hkey, congrArg Except.ok (Option.some.inj h)⟩
          · rw [AList.lookup_insert_ne hkey] at h
            exact Or.inl h

end

end SynchrotronCD
