import SynchrotronCD.Lib.Reload
import SynchrotronCD.Server.Config

/-!
# Hot reload of the configuration

The configuration is read from a file, parsed and validated, at startup and again on every
SIGHUP. A reload that fails is logged and leaves the configuration as it was; readers take a
snapshot of whatever is active.

So every snapshot is a configuration that passed the validation (`Valid`), and once the listener
has settled after a SIGHUP it is the one in the file, if that one is valid (`sighup_reloads`).
-/

namespace SynchrotronCD.ServerConfig

open Lib

/-! ## What is valid -/

/-- Names that are not blank, none of them twice. -/
structure WellNamed {α : Type} (name : α → String) (xs : List α) : Prop where
  nodup : (xs.map name).Nodup
  named : ∀ x ∈ xs, blank (name x) = false

structure Valid (cfg : Config) : Prop where
  listenAddr : blank cfg.server.listenAddr = false ∧ ':' ∈ cfg.server.listenAddr.toList
  dbPath : cfg.server.dbPath ≠ ""
  clusters : WellNamed ClusterCfg.name cfg.clusters
  /-- A cluster is reached from within, or by its kubeconfig. -/
  reached : ∀ c ∈ cfg.clusters, c.inCluster = c.kubeconfig.isNone
  repos : WellNamed RepoCfg.id cfg.repos
  urls : ∀ r ∈ cfg.repos, blank r.url = false
  plugins : WellNamed PluginCfg.name cfg.plugins
  polling : cfg.polling.repoIntervalSeconds ≠ 0 ∧ cfg.polling.autoHealIntervalSeconds ≠ 0
  timeouts : cfg.timeouts.reconcileSeconds ≠ 0 ∧ cfg.timeouts.gitFetchSeconds ≠ 0

theorem require_eq_nil {condition : Bool} {path message : String} :
    require condition path message = [] ↔ condition = true := by
  unfold require
  cases condition <;> simp

/-- A list passes if its names do and each element passes its own check. -/
theorem validateNamed_eq_nil {α : Type} {list field noun : String} {name : α → String}
    {check : String → α → List ValidationError} {good : α → Prop}
    (hcheck : ∀ pre x, check pre x = [] ↔ good x) {i : Nat} {seen : List String} {xs : List α} :
    validateNamed list field noun name check i seen xs = [] ↔
      WellNamed name xs ∧ (∀ x ∈ xs, name x ∉ seen) ∧ ∀ x ∈ xs, good x := by
  constructor
  · intro h
    obtain ⟨hnodup, hnamed, hfresh⟩ := names_of_validateNamed h
    refine ⟨⟨hnodup, hnamed⟩, hfresh, ?_⟩
    induction xs generalizing i seen with
    | nil => exact nofun
    | cons x xs ih =>
        rw [validateNamed] at h
        split at h
        · cases h
        · split at h
          · cases h
          · obtain ⟨hx, hrest⟩ := List.append_eq_nil_iff.mp h
            obtain ⟨hnodup', hnamed', hfresh'⟩ := names_of_validateNamed hrest
            exact List.forall_mem_cons.mpr
              ⟨(hcheck _ _).mp hx, ih hrest hnodup' hnamed' hfresh'⟩
  · rintro ⟨⟨hnodup, hnamed⟩, hfresh, hgood⟩
    induction xs generalizing i seen with
    | nil => rfl
    | cons x xs ih =>
        obtain ⟨hnot, hnodup'⟩ := List.nodup_cons.mp hnodup
        obtain ⟨hx, hnamed'⟩ := List.forall_mem_cons.mp hnamed
        obtain ⟨hfreshx, hfresh'⟩ := List.forall_mem_cons.mp hfresh
        obtain ⟨hgoodx, hgood'⟩ := List.forall_mem_cons.mp hgood
        have hseen : ∀ y ∈ xs, name y ∉ name x :: seen := by
          intro y hy hmem
          rcases List.mem_cons.mp hmem with heq | hmem
          · exact hnot (heq ▸ List.mem_map_of_mem hy)
          · exact hfresh' y hy hmem
        rw [validateNamed, if_neg (by simp [hx]), if_neg hfreshx, (hcheck _ _).mpr hgoodx,
          ih hnodup' hnamed' hseen hgood']
        rfl

theorem validateCluster_eq_nil (pre : String) (c : ClusterCfg) :
    validateCluster pre c = [] ↔ c.inCluster = c.kubeconfig.isNone := by
  unfold validateCluster
  rw [List.append_eq_nil_iff, require_eq_nil, require_eq_nil]
  cases c.kubeconfig with
  | none => simp
  | some path => simp

theorem validateServer_eq_nil (s : ServerSection) : validateServer s = [] ↔
    (blank s.listenAddr = false ∧ ':' ∈ s.listenAddr.toList) ∧ s.dbPath ≠ "" := by
  unfold validateServer
  rw [List.append_eq_nil_iff, require_eq_nil]
  cases hblank : blank s.listenAddr
  · simp [require_eq_nil]
  · simp

/-- **The validation accepts exactly the valid configurations.** -/
theorem validate_ok_iff {cfg : Config} : validate cfg = .ok () ↔ Valid cfg := by
  have hclusters : validateClusters cfg.clusters = [] ↔ _ :=
    validateNamed_eq_nil validateCluster_eq_nil
  have hurl : ∀ (pre : String) (r : RepoCfg),
      require (!blank r.url) (pre ++ ".url") "must not be empty" = [] ↔ blank r.url = false := by
    intro pre r
    rw [require_eq_nil, Bool.not_eq_true']
  have hrepos : validateRepos cfg.repos = [] ↔ _ := validateNamed_eq_nil hurl
  have hany : ∀ (_ : String) (_ : PluginCfg), ([] : List ValidationError) = [] ↔ True :=
    fun _ _ => iff_of_true rfl trivial
  have hplugins : validatePlugins cfg.plugins = [] ↔ _ := validateNamed_eq_nil hany
  have hall : validate cfg = .ok () ↔ validateServer cfg.server ++ validateClusters cfg.clusters
      ++ validateRepos cfg.repos ++ validatePlugins cfg.plugins ++ validatePolling cfg.polling
      ++ validateTimeouts cfg.timeouts = [] := by
    unfold validate
    dsimp only
    split
    · rename_i h
      simpa using h
    · rename_i h
      simpa using h
  rw [hall]
  simp only [List.append_eq_nil_iff, validateServer_eq_nil, hclusters, hrepos, hplugins,
    validatePolling, validateTimeouts, require_eq_nil, decide_eq_true_eq]
  constructor
  · rintro ⟨⟨⟨⟨⟨⟨hlisten, hdb⟩, hnames, -, hreached⟩, hids, -, hurls⟩, hplugins, -⟩, hpoll⟩, htime⟩
    exact ⟨hlisten, hdb, hnames, hreached, hids, hurls, hplugins, hpoll, htime⟩
  · intro h
    exact ⟨⟨⟨⟨⟨⟨h.listenAddr, h.dbPath⟩, h.clusters, by simp, h.reached⟩, h.repos, by simp, h.urls⟩,
      h.plugins, by simp⟩, h.polling⟩, h.timeouts⟩

/-- What a server without a configuration file runs with. -/
theorem default_valid : Valid Config.default := validate_ok_iff.mp rfl

/-! ## The handle -/

/-- What reading the file yields: its text, or why there is none. -/
abbrev File := Except String String

inductive ReloadError where
  | io (path source : String)
  | parse (source : String)
  | validation (errs : List ValidationError)
deriving DecidableEq, Repr

structure ConfigHandle where
  inner : Config
  path : String

section

-- `serde_yaml_ng::from_str`
variable (fromStr : String → Except String Config)

/-- Read the file, parse YAML, run validation. -/
def loadAndValidate (path : String) (file : File) : Except ReloadError Config :=
  match file with
  | .error source => .error (.io path source)
  | .ok text =>
    match fromStr text with
    | .error source => .error (.parse source)
    | .ok cfg =>
      match validate cfg with
      | .error errs => .error (.validation errs)
      | .ok () => .ok cfg

namespace ConfigHandle

/-- Load the file, validate, and wrap in a handle. -/
def load (path : String) (file : File) : Except ReloadError ConfigHandle :=
  match loadAndValidate fromStr path file with
  | .error e => .error e
  | .ok cfg => .ok ⟨cfg, path⟩

/-- Snapshot of the active config. -/
def current (h : ConfigHandle) : Config := h.inner

/-- Re-read the file and swap in the new config; on failure the old one stays active. -/
def reload (h : ConfigHandle) (file : File) : ConfigHandle × Except ReloadError Unit :=
  match loadAndValidate fromStr h.path file with
  | .error e => (h, .error e)
  | .ok cfg => ({ h with inner := cfg }, .ok ())

end ConfigHandle

variable {fromStr}

theorem valid_of_loadAndValidate {path : String} {file : File} {cfg : Config}
    (h : loadAndValidate fromStr path file = .ok cfg) : Valid cfg := by
  unfold loadAndValidate at h
  split at h
  · cases h
  · split at h
    · cases h
    · split at h
      · cases h
      · rename_i hvalidate
        obtain rfl := Except.ok.inj h
        exact validate_ok_iff.mp hvalidate

/-! ## The listener for SIGHUP

Each turn of its loop is a `reload`: the file is read, and then what it loads as is swapped in,
under the lock that readers take for their snapshots. -/

/-- The handle as the readers of a running server see it. -/
def handleOf (path : String) (s : Reloading File ReloadError Config) : ConfigHandle :=
  ⟨s.active, path⟩

/-- A turn of the loop that nothing comes between is a reload. -/
theorem handleOf_reload {path : String} {s : Reloading File ReloadError Config}
    (hwoken : s.listener = .woken) :
    handleOf path (s.read (loadAndValidate fromStr path)).finish
      = ((handleOf path s).reload fromStr s.file).1 := by
  unfold ConfigHandle.reload handleOf Reloading.read
  rw [hwoken]
  dsimp only
  cases loadAndValidate fromStr path s.file <;> rfl

/-- The server after these events, with what a handle was loaded from. -/
def runServer (fromStr : String → Except String Config) (file : File) (h : ConfigHandle)
    (es : List (ReloadEvent File)) : Reloading File ReloadError Config :=
  exec (Reloading.step (loadAndValidate fromStr h.path)) (.start file h.inner) es

/-- What a running server's snapshots are. -/
structure Serves (fromStr : String → Except String Config) (file : File) (h : ConfigHandle)
    (es : List (ReloadEvent File)) : Prop where
  valid : Valid (handleOf h.path (runServer fromStr file h es)).current
  /-- It is what was loaded first, or what the file loaded as when the listener read it. -/
  origin : (handleOf h.path (runServer fromStr file h es)).current = h.inner ∨
    ∃ before after, es = before ++ .read :: after
      ∧ loadAndValidate fromStr h.path (runServer fromStr file h before).file
        = .ok (handleOf h.path (runServer fromStr file h es)).current
  /-- At rest after a SIGHUP, and with the file as it was at that SIGHUP: what the file loads as;
  if it does not load, what the contents read before have left. -/
  settled : ∀ es₁ es₂, es = es₁ ++ .signal :: es₂ → (∀ content, .edit content ∉ es₂) →
    (runServer fromStr file h es).AtRest →
    ∃ before, (runServer fromStr file h es).reads = before ++ [(runServer fromStr file h es).file]
      ∧ (∀ cfg, loadAndValidate fromStr h.path (runServer fromStr file h es).file = .ok cfg →
          (handleOf h.path (runServer fromStr file h es)).current = cfg)
      ∧ ∀ e, loadAndValidate fromStr h.path (runServer fromStr file h es).file = .error e →
          (handleOf h.path (runServer fromStr file h es)).current
            = Reloading.served (loadAndValidate fromStr h.path) h.inner before

/--
**A SIGHUP puts the file's configuration in place, if it is valid, and no other ever is.**

Whatever the edits of the file, the signals and the steps of the listener, in any order: every
snapshot is valid, and was loaded from the file at the start or when the listener read it. Once
the listener has settled after a SIGHUP the file has been read again, and a snapshot is what it
loads as, or is left as it was by a file that does not load.
-/
theorem sighup_reloads {path : String} {file : File} {h : ConfigHandle}
    (hload : ConfigHandle.load fromStr path file = .ok h) (es : List (ReloadEvent File)) :
    Serves fromStr file h es := by
  have hfirst : loadAndValidate fromStr path file = .ok h.inner := by
    unfold ConfigHandle.load at hload
    split at hload
    · cases hload
    · rename_i hcfg
      obtain rfl := Except.ok.inj hload
      exact hcfg
  have hfollows : Reloading.Follows (loadAndValidate fromStr h.path) h.inner
      (runServer fromStr file h es) := Reloading.follows_exec file h.inner es
  have hactive := hfollows.active
  refine ⟨?_, ?_, fun es₁ es₂ hes hquiet hrest => ?_⟩
  · show Valid (runServer fromStr file h es).active
    rcases hactive with heq | ⟨k, -, hk⟩
    · rw [show (runServer fromStr file h es).active = h.inner from heq]
      exact valid_of_loadAndValidate hfirst
    · exact valid_of_loadAndValidate hk
  · refine hactive.imp id ?_
    rintro ⟨k, hmem, hk⟩
    obtain ⟨before, after, hes, rfl⟩ := Reloading.mem_reads _ rfl es k hmem
    exact ⟨before, after, hes, hk⟩
  · obtain ⟨before, hreads, hlast⟩ := Reloading.signal_heeded file h.inner hes hquiet hrest
    exact ⟨before, hreads, fun cfg hcfg => hlast.trans (Reloading.accept_ok hcfg _),
      fun e he => hlast.trans (Reloading.accept_error he _)⟩

end

/-! ### An edited file -/

/-- Of the texts `slow` and `never`, the first is the default with other timeouts, and the
second has none. -/
def parseTimeouts : String → Except String Config
  | "default" => .ok .default
  | "slow" => .ok { Config.default with timeouts := ⟨600, 240⟩ }
  | "never" => .ok { Config.default with timeouts := ⟨0, 0⟩ }
  | _ => .error "invalid type: string, expected struct Config"

/-- The file is edited twice, with a SIGHUP after each, of which the second comes before the
first reload has finished. -/
def editedTwice : List (ReloadEvent File) :=
  [.edit (.ok "slow"), .signal, .wake, .read, .edit (.ok "never"), .signal, .finish, .wake, .read,
    .finish]

/-- A file without timeouts leaves the slow ones in place. -/
theorem slow_served : Serves parseTimeouts (.ok "default") ⟨.default, "synchrotron.yaml"⟩ editedTwice
    ∧ (runServer parseTimeouts (.ok "default") ⟨.default, "synchrotron.yaml"⟩
      editedTwice).active.timeouts = ⟨600, 240⟩ :=
  ⟨sighup_reloads rfl editedTwice, rfl⟩

end SynchrotronCD.ServerConfig
