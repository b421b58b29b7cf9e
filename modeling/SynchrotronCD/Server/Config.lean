import SynchrotronCD.Lib.JsonTree
import SynchrotronCD.Plugins.RegistryConfig
import SynchrotronCD.Reconcile.Wave

/-!
# The configuration and the plugin registry

The server's configuration is validated before anything is started: names are not
blank and not used twice, and the values make sense by themselves. The plugin list
is then written as YAML and read by the plugin registry, which has a schema of its
own.

A list that the validation accepts is accepted by the registry, and resolves every
plugin and the name `raw`, exactly if its plugins are of the registry's kinds, with
the fields the registry asks for, and one of them is named `raw` (`agrees_iff`).
-/

namespace SynchrotronCD.ServerConfig

open Lib PluginRegistry
open List (Forall₂)

/-! ## The schema -/

structure ServerSection where
  listenAddr : String
  dbPath : String
deriving DecidableEq, Repr

structure ClusterCfg where
  name : String
  kubeconfig : Option String
  context : Option String
  inCluster : Bool
deriving DecidableEq, Repr

structure RepoCfg where
  id : String
  url : String
  branch : Option String
  credentialsSecret : Option String
deriving DecidableEq, Repr

/-- The runtime an operator selects. -/
inductive Kind where
  | raw
  | helm
  | kustomize
  | «local»
  | sidecar
deriving DecidableEq, Repr

def Kind.asStr : Kind → String
  | .raw => "raw"
  | .helm => "helm"
  | .kustomize => "kustomize"
  | .«local» => "local"
  | .sidecar => "sidecar"

theorem Kind.asStr_inj {k l : Kind} (h : k.asStr = l.asStr) : k = l := by
  cases k <;> cases l <;> first | rfl | exact absurd h (by decide)

structure PluginCfg where
  name : String
  kind : Kind
  /-- All other fields, as they are. -/
  extra : HashMap String Value
  extra_other : "name" ∉ extra ∧ "kind" ∉ extra

structure Polling where
  repoIntervalSeconds : UInt64
  autoHealIntervalSeconds : UInt64
deriving DecidableEq, Repr

structure Timeouts where
  reconcileSeconds : UInt64
  gitFetchSeconds : UInt64
deriving DecidableEq, Repr

structure Config where
  server : ServerSection
  clusters : List ClusterCfg
  repos : List RepoCfg
  plugins : List PluginCfg
  polling : Polling
  timeouts : Timeouts

def ServerSection.default : ServerSection := ⟨"0.0.0.0:8484", "synchrotron.db"⟩

def Polling.default : Polling := ⟨180, 600⟩

def Timeouts.default : Timeouts := ⟨300, 120⟩

def Config.default : Config := ⟨.default, [], [], [], .default, .default⟩

/-! ## Validation -/

structure ValidationError where
  path : String
  message : String
deriving DecidableEq, Repr

/-- `s.trim().is_empty()`. -/
def blank (s : String) : Bool := (trim s.toList).isEmpty

/-- An error unless the condition holds. -/
def require (condition : Bool) (path message : String) : List ValidationError :=
  if condition then [] else [⟨path, message⟩]

/-- A list whose elements have names: none is blank, none is used again, and each element
passes its own check, under its index. `noun` is what a name is called. -/
def validateNamed {α : Type} (list field noun : String) (name : α → String)
    (check : String → α → List ValidationError) : Nat → List String → List α → List ValidationError
  | _, _, [] => []
  | i, seen, x :: xs =>
    let pre := list ++ "[" ++ toString i ++ "]"
    let path := pre ++ "." ++ field
    if blank (name x) then
      ⟨path, "must not be empty"⟩ :: check pre x
        ++ validateNamed list field noun name check (i + 1) seen xs
    else if name x ∈ seen then
      ⟨path, "duplicate " ++ noun ++ " '" ++ name x ++ "'"⟩ :: check pre x
        ++ validateNamed list field noun name check (i + 1) seen xs
    else
      check pre x ++ validateNamed list field noun name check (i + 1) (name x :: seen) xs

def validateServer (s : ServerSection) : List ValidationError :=
  (if blank s.listenAddr then [⟨"server.listen_addr", "must not be empty"⟩]
    else require (s.listenAddr.toList.contains ':') "server.listen_addr"
      "must include a port (e.g. 0.0.0.0:8484)")
  ++ require (s.dbPath ≠ "") "server.db_path" "must not be empty"

def validateCluster (pre : String) (c : ClusterCfg) : List ValidationError :=
  require (!(c.inCluster && c.kubeconfig.isSome)) pre
      "in_cluster=true is mutually exclusive with kubeconfig"
    ++ require (!(!c.inCluster && c.kubeconfig.isNone)) pre
      "must set either kubeconfig or in_cluster=true"

def validateClusters (clusters : List ClusterCfg) : List ValidationError :=
  validateNamed "clusters" "name" "cluster name" ClusterCfg.name validateCluster 0 [] clusters

def validateRepos (repos : List RepoCfg) : List ValidationError :=
  validateNamed "repos" "id" "repo id" RepoCfg.id
    (fun pre r => require (!blank r.url) (pre ++ ".url") "must not be empty") 0 [] repos

def validatePlugins (plugins : List PluginCfg) : List ValidationError :=
  validateNamed "plugins" "name" "plugin name" PluginCfg.name (fun _ _ => []) 0 [] plugins

def validatePolling (p : Polling) : List ValidationError :=
  require (p.repoIntervalSeconds ≠ 0) "polling.repo_interval_seconds" "must be > 0"
    ++ require (p.autoHealIntervalSeconds ≠ 0) "polling.auto_heal_interval_seconds" "must be > 0"

def validateTimeouts (t : Timeouts) : List ValidationError :=
  require (t.reconcileSeconds ≠ 0) "timeouts.reconcile_seconds" "must be > 0"
    ++ require (t.gitFetchSeconds ≠ 0) "timeouts.git_fetch_seconds" "must be > 0"

/-- Run every check; the errors accumulate. -/
def validate (cfg : Config) : Except (List ValidationError) Unit :=
  let errs := validateServer cfg.server ++ validateClusters cfg.clusters
    ++ validateRepos cfg.repos ++ validatePlugins cfg.plugins ++ validatePolling cfg.polling
    ++ validateTimeouts cfg.timeouts
  if errs.isEmpty then .ok () else .error errs

/-- Names that pass are distinct, and none has been seen before. -/
theorem names_of_validateNamed {α : Type} {list field noun : String} {name : α → String}
    {check : String → α → List ValidationError} {i : Nat} {seen : List String} {xs : List α}
    (h : validateNamed list field noun name check i seen xs = []) :
    (xs.map name).Nodup ∧ (∀ x ∈ xs, blank (name x) = false) ∧ ∀ x ∈ xs, name x ∉ seen := by
  induction xs generalizing i seen with
  | nil => exact ⟨List.nodup_nil, nofun, nofun⟩
  | cons x xs ih =>
      rw [validateNamed] at h
      split at h
      · cases h
      · split at h
        · cases h
        · rename_i hblank hseen
          obtain ⟨-, hrest⟩ := List.append_eq_nil_iff.mp h
          obtain ⟨hnodup, hblanks, hfresh⟩ := ih hrest
          refine ⟨?_, ?_, ?_⟩
          · rw [List.map_cons, List.nodup_cons]
            refine ⟨fun hmem => ?_, hnodup⟩
            obtain ⟨y, hy, hyx⟩ := List.mem_map.mp hmem
            exact hfresh y hy (hyx ▸ List.mem_cons_self)
          · exact List.forall_mem_cons.mpr ⟨by simpa using hblank, hblanks⟩
          · exact List.forall_mem_cons.mpr
              ⟨hseen, fun y hy hmem => hfresh y hy (List.mem_cons_of_mem _ hmem)⟩

theorem plugin_names_of_validate {cfg : Config} (h : validate cfg = .ok ()) :
    (cfg.plugins.map PluginCfg.name).Nodup := by
  unfold validate at h
  dsimp only at h
  split at h
  · rename_i hempty
    have hplugins : validatePlugins cfg.plugins = [] := by
      simp only [List.isEmpty_iff, List.append_eq_nil_iff] at hempty
      exact hempty.1.1.2
    exact (names_of_validateNamed hplugins).1
  · cases h

/-! ## The registry of the server -/

/-- The entries of the mapping that a plugin is written as. -/
def PluginCfg.entries (p : PluginCfg) : List (String × Value) :=
  ("name", .string p.name) :: ("kind", .string p.kind.asStr)
    :: p.extra.entries.map fun e => (e.1, e.2)

/-- A mapping with these entries. -/
def mappingOf (entries : List (String × Value)) : Value :=
  .mapping (entries.map fun e => (.string e.1, e.2))

def PluginCfg.toValue (p : PluginCfg) : Value := mappingOf p.entries

theorem get_mappingOf (entries : List (String × Value)) (key : String) :
    (mappingOf entries).get key = (entries.find? fun e => key == e.1).map Prod.snd := by
  unfold mappingOf Value.get
  show Option.map Prod.snd ((entries.map fun e => ((Value.string e.1, e.2) : Value × Value)).find?
    fun p => Value.beq (.string key) p.1) = _
  rw [List.find?_map, Option.map_map]
  rfl

theorem find_entries (m : HashMap String Value) (key : String) :
    ((m.entries.map fun e => (e.1, e.2)).find? fun e => key == e.1).map Prod.snd
      = m.lookup key := by
  unfold AList.lookup
  induction m.entries with
  | nil => rfl
  | cons e es ih =>
      obtain ⟨k, v⟩ := e
      by_cases h : key = k
      · subst h
        simp
      · have hne : (key == k) = false := by simpa using h
        rw [List.map_cons, List.find?_cons_of_neg (by simpa using h), ih,
          List.dlookup_cons_ne _ _ h]

/-- A field of its own, under the keys of the struct, and any other as it was configured. -/
theorem get_toValue (p : PluginCfg) (key : String) : p.toValue.get key =
    if key = "name" then some (.string p.name)
    else if key = "kind" then some (.string p.kind.asStr)
    else p.extra.lookup key := by
  unfold PluginCfg.toValue PluginCfg.entries
  rw [get_mappingOf]
  by_cases hname : key = "name"
  · rw [if_pos hname, List.find?_cons_of_pos (by simpa using hname)]
    rfl
  · rw [if_neg hname, List.find?_cons_of_neg (by simpa using hname)]
    by_cases hkind : key = "kind"
    · rw [if_pos hkind, List.find?_cons_of_pos (by simpa using hkind)]
      rfl
    · rw [if_neg hkind, List.find?_cons_of_neg (by simpa using hkind)]
      exact find_entries p.extra key

section

variable [YamlReading]

/-- Why the server does not start with these plugins. -/
inductive StartError where
  | serialize
  | registry (e : ConfigError)
deriving DecidableEq, Repr

/-- The document that the plugin list is written as. -/
def pluginsDocument (plugins : List PluginCfg) : Value :=
  .mapping [(.string "plugins", .sequence (plugins.map PluginCfg.toValue))]

/-- The plugin registry of the server. -/
def pluginRegistry (cfg : Config) : Except StartError (HashMap String PluginConfig) :=
  if YamlReading.writes (pluginsDocument cfg.plugins) then
    match parseConfig (cfg.plugins.map PluginCfg.toValue) with
    | .ok map => .ok map
    | .error e => .error (.registry e)
  else .error .serialize

/-! ## Agreement -/

/-- What is read of a plugin's other fields. -/
structure PluginCfg.Reads (p : PluginCfg) (r : RawPlugin) : Prop where
  name : r.name = p.name
  kind : r.kind = p.kind.asStr
  command : readField none YamlReading.optString (p.extra.lookup "command") = .ok r.command
  args : readField [] YamlReading.strings (p.extra.lookup "args") = .ok r.args
  env : readField [] YamlReading.stringMap (p.extra.lookup "env") = .ok r.env
  timeoutSecs : readField none YamlReading.optU64 (p.extra.lookup "timeout_secs") = .ok r.timeoutSecs
  endpoint : readField none YamlReading.optString (p.extra.lookup "endpoint") = .ok r.endpoint

/-- The registry reads of a plugin what was configured. -/
theorem ofValue_toValue_iff {p : PluginCfg} {r : RawPlugin} :
    RawPlugin.ofValue p.toValue = .ok r ↔ p.Reads r := by
  have hname : readRequired "name" YamlReading.string (p.toValue.get "name") = .ok p.name := by
    rw [get_toValue, if_pos rfl]
    exact YamlReading.string_string p.name
  have hkind : readRequired "kind" YamlReading.string (p.toValue.get "kind") = .ok p.kind.asStr := by
    rw [get_toValue, if_neg (by decide), if_pos rfl]
    exact YamlReading.string_string p.kind.asStr
  have hother : ∀ key, key ≠ "name" → key ≠ "kind" → p.toValue.get key = p.extra.lookup key :=
    fun key h1 h2 => by rw [get_toValue, if_neg h1, if_neg h2]
  unfold RawPlugin.ofValue
  rw [hname, hkind, hother "command" (by decide) (by decide), hother "args" (by decide) (by decide),
    hother "env" (by decide) (by decide), hother "timeout_secs" (by decide) (by decide),
    hother "endpoint" (by decide) (by decide)]
  constructor
  · intro h
    simp only [bind_eq_ok] at h
    obtain ⟨name, hname, kind, hkind, command, hcommand, args, hargs, env, henv, timeoutSecs, htimeout,
      endpoint, hendpoint, hr⟩ := h
    obtain rfl := Except.ok.inj hname
    obtain rfl := Except.ok.inj hkind
    obtain rfl := Except.ok.inj hr
    exact ⟨rfl, rfl, hcommand, hargs, henv, htimeout, hendpoint⟩
  · intro h
    rw [h.command, h.args, h.env, h.timeoutSecs, h.endpoint, ← h.name, ← h.kind]
    rfl

/-- A runtime of the configured kind, with the configured fields. -/
def PluginCfg.RunsAs (p : PluginCfg) (kind : PluginKind) : Prop :=
  ∃ r, p.Reads r ∧
    match p.kind, kind with
    | .raw, .raw => True
    | .«local», .«local» command args env timeout =>
      r.command = some command ∧ r.args = args ∧ r.env = env
        ∧ r.timeoutSecs.getD DEFAULT_LOCAL_TIMEOUT = timeout
    | .sidecar, .sidecar endpoint => r.endpoint = some endpoint
    | _, _ => False

/-- The registry accepts the plugins, resolves each by its name to what was configured, and
resolves the name under which applications without a plugin are rendered. -/
structure Agrees (cfg : Config) (registry : HashMap String PluginConfig) : Prop where
  accepts : pluginRegistry cfg = .ok registry
  resolves : ∀ p ∈ cfg.plugins, ∃ c, registry.lookup p.name = some c ∧ c.name = p.name ∧ p.RunsAs c.kind
  raw : ∃ c, registry.lookup "raw" = some c

/-- Which of the two fields a kind takes; the registry has no runtime for two of the kinds. -/
def Kind.Takes (k : Kind) (command endpoint : Option String) : Prop :=
  match k with
  | .raw => command = none ∧ endpoint = none
  | .«local» => command ≠ none ∧ endpoint = none
  | .sidecar => endpoint ≠ none ∧ command = none
  | .helm | .kustomize => False

/-- The plugin's fields are of their types, and are those its kind takes. -/
def PluginCfg.Acceptable (p : PluginCfg) : Prop :=
  ∃ r, p.Reads r ∧ p.kind.Takes r.command r.endpoint

theorem allowed_iff {p : PluginCfg} {r : RawPlugin} (h : p.Reads r) :
    r.Allowed ↔ p.kind.Takes r.command r.endpoint := by
  unfold RawPlugin.Allowed Kind.Takes
  rw [h.kind]
  cases p.kind <;> simp [Kind.asStr]

theorem runsAs_of_runs {p : PluginCfg} {r : RawPlugin} {kind : PluginKind} (h : p.Reads r)
    (hruns : r.Runs kind) : p.RunsAs kind := by
  refine ⟨r, h, ?_⟩
  cases hruns with
  | raw hr =>
      have hp : p.kind = .raw := Kind.asStr_inj (h.kind.symm.trans hr)
      rw [hp]
      trivial
  | «local» hr hc =>
      have hp : p.kind = .«local» := Kind.asStr_inj (h.kind.symm.trans hr)
      rw [hp]
      exact ⟨hc, rfl, rfl, rfl⟩
  | sidecar hr he =>
      have hp : p.kind = .sidecar := Kind.asStr_inj (h.kind.symm.trans hr)
      rw [hp]
      exact he

/-- What the registry reads of plugins it accepts. -/
theorem reads_of_pluginRegistry {cfg : Config} {registry : HashMap String PluginConfig}
    (h : pluginRegistry cfg = .ok registry) :
    YamlReading.writes (pluginsDocument cfg.plugins) = true ∧
      ∃ raws, Forall₂ PluginCfg.Reads cfg.plugins raws ∧ parseLoop raws [] ∅ = .ok registry := by
  unfold pluginRegistry at h
  split at h
  · rename_i hwrites
    refine ⟨hwrites, ?_⟩
    unfold parseConfig at h
    cases hread : readPlugins (cfg.plugins.map PluginCfg.toValue) with
    | error e => rw [hread] at h; cases h
    | ok raws =>
        rw [hread] at h
        dsimp only at h
        refine ⟨raws, ?_, ?_⟩
        · have hall := readPlugins_ok hread
          rw [List.forall₂_map_left_iff] at hall
          exact hall.imp fun _ _ => ofValue_toValue_iff.mp
        · cases hloop : parseLoop raws [] ∅ with
          | error e => rw [hloop] at h; cases h
          | ok map => rw [hloop] at h; rw [Except.ok.inj h]
  · cases h

theorem pluginRegistry_of_reads {cfg : Config} {raws : List RawPlugin}
    {registry : HashMap String PluginConfig}
    (hwrites : YamlReading.writes (pluginsDocument cfg.plugins) = true)
    (hreads : Forall₂ PluginCfg.Reads cfg.plugins raws)
    (hloop : parseLoop raws [] ∅ = .ok registry) : pluginRegistry cfg = .ok registry := by
  have hall : Forall₂ (fun v r => RawPlugin.ofValue v = .ok r)
      (cfg.plugins.map PluginCfg.toValue) raws :=
    List.forall₂_map_left_iff.mpr (hreads.imp fun _ _ => ofValue_toValue_iff.mpr)
  unfold pluginRegistry parseConfig
  rw [if_pos hwrites, readPlugins_of_forall₂ hall]
  dsimp only
  rw [hloop]

theorem names_of_reads {plugins : List PluginCfg} {raws : List RawPlugin}
    (h : Forall₂ PluginCfg.Reads plugins raws) :
    raws.map RawPlugin.name = plugins.map PluginCfg.name := by
  induction h with
  | nil => rfl
  | cons hr _ ih => rw [List.map_cons, List.map_cons, hr.name, ih]

/-- Plugins with acceptable fields and distinct names are read and accepted. -/
theorem reads_of_acceptable {plugins : List PluginCfg} (h : ∀ p ∈ plugins, p.Acceptable) :
    ∃ raws, Forall₂ PluginCfg.Reads plugins raws ∧ ∀ r ∈ raws, r.Allowed := by
  induction plugins with
  | nil => exact ⟨[], .nil, nofun⟩
  | cons p ps ih =>
      obtain ⟨⟨r, hr, htakes⟩, hps⟩ := List.forall_mem_cons.mp h
      obtain ⟨raws, hraws, hallowed⟩ := ih hps
      exact ⟨r :: raws, .cons hr hraws,
        List.forall_mem_cons.mpr ⟨(allowed_iff hr).mpr htakes, hallowed⟩⟩

/-- The registry of plugins whose names are distinct: it has every plugin, and no other. -/
theorem registry_of_reads {plugins : List PluginCfg} {raws : List RawPlugin}
    (hnames : (plugins.map PluginCfg.name).Nodup) (hreads : Forall₂ PluginCfg.Reads plugins raws)
    (hallowed : ∀ r ∈ raws, r.Allowed) :
    ∃ registry, parseLoop raws [] ∅ = .ok registry ∧
      (∀ p ∈ plugins, ∃ c, registry.lookup p.name = some c ∧ c.name = p.name ∧ p.RunsAs c.kind) ∧
      ∀ name, (registry.lookup name).isSome → ∃ p ∈ plugins, p.name = name := by
  have hraws : (raws.map RawPlugin.name).Nodup := names_of_reads hreads ▸ hnames
  obtain ⟨registry, hloop, hlookup, hother⟩ :=
    parseLoop_of_allowed ∅ hraws (fun _ _ => List.not_mem_nil) hallowed
  refine ⟨registry, hloop, fun p hp => ?_, fun name hname => ?_⟩
  · obtain ⟨r, hr, hpr⟩ := exists_of_forall₂ hreads p hp
    obtain ⟨c, hc, hvalidate⟩ := hlookup r hr
    obtain ⟨-, hcname, hruns⟩ := RawPlugin.validate_ok hvalidate
    exact ⟨c, hpr.name ▸ hc, hcname.trans hpr.name, runsAs_of_runs hpr hruns⟩
  · by_cases hmem : name ∈ raws.map RawPlugin.name
    · rw [names_of_reads hreads] at hmem
      exact List.mem_map.mp hmem
    · rw [hother name hmem, AList.lookup_empty] at hname
      cases hname

/--
**The registry agrees with the validation exactly on plugins of its own schema.**

The plugin list can be written as YAML, the plugins are of the registry's kinds with
readable fields, those that the kind requires and none that it forbids, and one of
them is named `raw`.
-/
theorem agrees_iff {cfg : Config} (h : validate cfg = .ok ()) : (∃ registry, Agrees cfg registry) ↔
    YamlReading.writes (pluginsDocument cfg.plugins) = true ∧ (∀ p ∈ cfg.plugins, p.Acceptable) ∧
      ∃ p ∈ cfg.plugins, p.name = "raw" := by
  have hnames := plugin_names_of_validate h
  constructor
  · rintro ⟨registry, hagrees⟩
    obtain ⟨hwrites, raws, hreads, hloop⟩ := reads_of_pluginRegistry hagrees.accepts
    have hallowed := allowed_of_parseLoop hloop
    refine ⟨hwrites, fun p hp => ?_, ?_⟩
    · obtain ⟨r, hr, hpr⟩ := exists_of_forall₂ hreads p hp
      exact ⟨r, hpr, (allowed_iff hpr).mp (hallowed r hr)⟩
    · obtain ⟨_, hloop', -, honly⟩ := registry_of_reads hnames hreads hallowed
      obtain rfl := Except.ok.inj (hloop'.symm.trans hloop)
      obtain ⟨c, hc⟩ := hagrees.raw
      exact honly "raw" (by rw [hc]; rfl)
  · rintro ⟨hwrites, hacceptable, p, hp, hraw⟩
    obtain ⟨raws, hreads, hallowed⟩ := reads_of_acceptable hacceptable
    obtain ⟨registry, hloop, hresolves, -⟩ := registry_of_reads hnames hreads hallowed
    obtain ⟨c, hc, -⟩ := hresolves p hp
    exact ⟨registry, pluginRegistry_of_reads hwrites hreads hloop, hresolves, c, hraw ▸ hc⟩

end

/-! ### Two configurations -/

/-- The default configuration with one plugin. -/
def withPlugin (name : String) (kind : Kind) : Config :=
  { Config.default with plugins := [⟨name, kind, ∅, by decide⟩] }

/-- A plugin of the kind that renders charts passes the validation; the registry has no such
kind, and the server does not start. -/
theorem helm_plugin_refused :
    validate (withPlugin "charts" .helm) = .ok () ∧
      (∀ registry, ¬ @Agrees .plain (withPlugin "charts" .helm) registry) ∧
      @pluginRegistry .plain (withPlugin "charts" .helm)
        = .error (.registry (.invalid "charts"
            "unknown kind \x60helm\x60 (expected raw, local, or sidecar)")) := by
  have herr : @pluginRegistry .plain (withPlugin "charts" .helm)
      = .error (.registry (.invalid "charts"
          "unknown kind \x60helm\x60 (expected raw, local, or sidecar)")) := by rfl
  refine ⟨by rfl, fun registry hagrees => ?_, herr⟩
  have hok := @Agrees.accepts .plain _ _ hagrees
  rw [herr] at hok
  cases hok

/-- The fields of a local plugin. -/
def chartFields : HashMap String Value :=
  (((∅ : HashMap String Value).insert "command" (.string "/opt/charts")).insert "args"
    (.sequence [.string "--strict"])).insert "timeout_secs" (.number (.posInt 30))

/-- The raw plugin, and a local one with fields. -/
def rawAndCharts : Config :=
  { Config.default with plugins := [⟨"raw", .raw, ∅, by decide⟩,
      ⟨"charts", .«local», chartFields, by decide⟩] }

theorem charts_agree : (∃ registry, @Agrees .plain rawAndCharts registry) ∧
    validate rawAndCharts = .ok () := by
  have hvalid : validate rawAndCharts = .ok () := by rfl
  refine ⟨(@agrees_iff .plain _ hvalid).mpr ⟨rfl, ?_, ?_⟩, hvalid⟩
  · let _ := YamlReading.plain
    refine List.forall_mem_cons.mpr ⟨?_, List.forall_mem_cons.mpr ⟨?_, nofun⟩⟩
    · exact ⟨⟨"raw", "raw", none, [], [], none, none⟩, ⟨rfl, rfl, rfl, rfl, rfl, rfl, rfl⟩, rfl, rfl⟩
    · exact ⟨⟨"charts", "local", some "/opt/charts", ["--strict"], [], some 30, none⟩,
        ⟨rfl, rfl, rfl, rfl, rfl, rfl, rfl⟩, nofun, rfl⟩
  · exact ⟨_, List.mem_cons_self, rfl⟩

end SynchrotronCD.ServerConfig
