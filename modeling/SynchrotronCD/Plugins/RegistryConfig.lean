import SynchrotronCD.Lib.Assoc
import SynchrotronCD.Plugins.Value

/-!
# The declarative plugin config

The registry's config is a YAML document with a list of plugins. Each `kind`
constrains the fields: `raw` takes none, `local` requires `command` and `sidecar`
requires `endpoint`. Names are unique.

What the YAML library reads from the text it has written for a value is a
parameter, for each type that is read.
-/

namespace SynchrotronCD.PluginRegistry

open Lib

/-- `serde_yaml_ng`: what it writes, and what it reads back at each type. -/
class YamlReading where
  /-- There is a text for the value. -/
  writes : Value → Bool
  string : Value → Except String String
  optString : Value → Except String (Option String)
  strings : Value → Except String (List String)
  stringMap : Value → Except String (List (String × String))
  optU64 : Value → Except String (Option UInt64)
  string_string : ∀ s, string (.string s) = .ok s
  optString_string : ∀ s, optString (.string s) = .ok (some s)
  strings_sequence : ∀ ss : List String, strings (.sequence (ss.map .string)) = .ok ss
  stringMap_mapping : ∀ kvs : List (String × String), (kvs.map Prod.fst).Nodup →
    stringMap (.mapping (kvs.map fun kv => (.string kv.1, .string kv.2))) = .ok kvs
  optU64_number : ∀ n, optU64 (.number (.posInt n)) = .ok (some n)

/-- Strings of a sequence. -/
def plainStrings : List Value → Except String (List String)
  | [] => .ok []
  | .string s :: vs => (plainStrings vs).map (s :: ·)
  | _ :: _ => .error "invalid type: expected a string"

/-- Strings under string keys. -/
def plainStringMap : List (Value × Value) → Except String (List (String × String))
  | [] => .ok []
  | (.string k, .string s) :: kvs => (plainStringMap kvs).map ((k, s) :: ·)
  | _ :: _ => .error "invalid type: expected a string"

theorem plainStrings_map (ss : List String) : plainStrings (ss.map .string) = .ok ss := by
  induction ss with
  | nil => rfl
  | cons s ss ih =>
      rw [List.map_cons, plainStrings, ih]
      rfl

theorem plainStringMap_map (kvs : List (String × String)) :
    plainStringMap (kvs.map fun kv => (.string kv.1, .string kv.2)) = .ok kvs := by
  induction kvs with
  | nil => rfl
  | cons kv kvs ih =>
      rw [List.map_cons, plainStringMap, ih]
      rfl

/-- A value without tags is written, and read back at its own type only. -/
abbrev YamlReading.plain : YamlReading where
  writes := fun _ => true
  string
    | .string s => .ok s
    | _ => .error "invalid type: expected a string"
  optString
    | .null => .ok none
    | .string s => .ok (some s)
    | _ => .error "invalid type: expected a string"
  strings
    | .sequence vs => plainStrings vs
    | _ => .error "invalid type: expected a sequence"
  stringMap
    | .mapping kvs => plainStringMap kvs
    | _ => .error "invalid type: expected a map"
  optU64
    | .null => .ok none
    | .number (.posInt n) => .ok (some n)
    | _ => .error "invalid type: expected u64"
  string_string := fun _ => rfl
  optString_string := fun _ => rfl
  strings_sequence := plainStrings_map
  stringMap_mapping := fun kvs _ => plainStringMap_map kvs
  optU64_number := fun _ => rfl

/-- Default per-request timeout for local plugins, in seconds. -/
def DEFAULT_LOCAL_TIMEOUT : UInt64 := 60

inductive PluginKind where
  /-- Built-in raw YAML directory source. -/
  | raw
  /-- Subprocess speaking JSON-RPC over stdio; the timeout is in seconds. -/
  | «local» (command : String) (args : List String) (env : List (String × String))
    (timeout : UInt64)
  /-- Sidecar container reached over gRPC. -/
  | sidecar (endpoint : String)
deriving DecidableEq, Repr

structure PluginConfig where
  name : String
  kind : PluginKind
deriving DecidableEq, Repr

inductive ConfigError where
  | yaml (source : String)
  | duplicateName (name : String)
  | invalid (name message : String)
deriving DecidableEq, Repr

structure RawPlugin where
  name : String
  kind : String
  command : Option String
  args : List String
  env : List (String × String)
  timeoutSecs : Option UInt64
  endpoint : Option String
deriving DecidableEq, Repr

/-! ## Reading -/

/-- A field with `#[serde(default)]`. -/
def readField {α : Type} (default : α) (read : Value → Except String α) (v : Option Value) :
    Except String α :=
  match v with
  | none => .ok default
  | some v => read v

def readRequired (field : String) (read : Value → Except String String) (v : Option Value) :
    Except String String :=
  match v with
  | none => .error ("missing field \x60" ++ field ++ "\x60")
  | some v => read v

section

variable [YamlReading]

/-- One entry of the list; a field it does not know is ignored. -/
def RawPlugin.ofValue (v : Value) : Except String RawPlugin := do
  let name ← readRequired "name" YamlReading.string (v.get "name")
  let kind ← readRequired "kind" YamlReading.string (v.get "kind")
  let command ← readField none YamlReading.optString (v.get "command")
  let args ← readField [] YamlReading.strings (v.get "args")
  let env ← readField [] YamlReading.stringMap (v.get "env")
  let timeoutSecs ← readField none YamlReading.optU64 (v.get "timeout_secs")
  let endpoint ← readField none YamlReading.optString (v.get "endpoint")
  return ⟨name, kind, command, args, env, timeoutSecs, endpoint⟩

def readPlugins : List Value → Except String (List RawPlugin)
  | [] => .ok []
  | v :: vs => do
    let raw ← RawPlugin.ofValue v
    let rest ← readPlugins vs
    return raw :: rest

end

/-! ## Validation -/

def rejectField (name field : String) (present : Bool) : Except ConfigError Unit :=
  if present then
    .error (.invalid name ("field \x60" ++ field ++ "\x60 is not allowed for this kind"))
  else .ok ()

/-- `ok_or_else` for a field that the kind requires. -/
def requireField (name message : String) : Option String → Except ConfigError String
  | some x => .ok x
  | none => .error (.invalid name message)

/-- The `kind` of `validate`. -/
def RawPlugin.runtime (r : RawPlugin) : Except ConfigError PluginKind :=
  match r.kind with
  | "raw" => do
    rejectField r.name "command" r.command.isSome
    rejectField r.name "endpoint" r.endpoint.isSome
    return .raw
  | "local" => do
    let command ← requireField r.name "kind: local requires \x60command\x60" r.command
    rejectField r.name "endpoint" r.endpoint.isSome
    return .«local» command r.args r.env (r.timeoutSecs.getD DEFAULT_LOCAL_TIMEOUT)
  | "sidecar" => do
    let endpoint ← requireField r.name "kind: sidecar requires \x60endpoint\x60" r.endpoint
    rejectField r.name "command" r.command.isSome
    return .sidecar endpoint
  | other => .error (.invalid r.name
      ("unknown kind \x60" ++ other ++ "\x60 (expected raw, local, or sidecar)"))

def RawPlugin.validate (r : RawPlugin) : Except ConfigError PluginConfig := do
  let kind ← r.runtime
  return ⟨r.name, kind⟩

/-- The loop of `parse_config` over the plugins, with the names seen and the map so far. -/
def parseLoop : List RawPlugin → List String → HashMap String PluginConfig →
    Except ConfigError (HashMap String PluginConfig)
  | [], _, map => .ok map
  | raw :: rest, seen, map =>
    if raw.name ∈ seen then .error (.duplicateName raw.name)
    else do
      let config ← raw.validate
      parseLoop rest (raw.name :: seen) (map.insert raw.name config)

section

variable [YamlReading]

/-- `parse_config`, on the text that was written for a mapping with this `plugins` list. -/
def parseConfig (plugins : List Value) : Except ConfigError (HashMap String PluginConfig) :=
  match readPlugins plugins with
  | .error source => .error (.yaml source)
  | .ok raws => parseLoop raws [] ∅

end

/-! ## What is accepted -/

/-- A computation with a result has a result at its first step. -/
theorem bind_eq_ok {ε α β : Type} {x : Except ε α} {f : α → Except ε β} {b : β} :
    (x >>= f) = .ok b ↔ ∃ a, x = .ok a ∧ f a = .ok b := by
  cases x with
  | error e => exact ⟨nofun, fun ⟨_, h, _⟩ => nomatch h⟩
  | ok a => exact ⟨fun h => ⟨a, rfl, h⟩, fun ⟨_, ha, h⟩ => Except.ok.inj ha ▸ h⟩

/-- The fields a kind requires are there, and those it forbids are not. -/
def RawPlugin.Allowed (r : RawPlugin) : Prop :=
  (r.kind = "raw" ∧ r.command = none ∧ r.endpoint = none) ∨
    (r.kind = "local" ∧ r.command ≠ none ∧ r.endpoint = none) ∨
    (r.kind = "sidecar" ∧ r.endpoint ≠ none ∧ r.command = none)

/-- The runtime that an accepted plugin gets. -/
inductive RawPlugin.Runs (r : RawPlugin) : PluginKind → Prop where
  | raw : r.kind = "raw" → r.Runs .raw
  | «local» {command : String} : r.kind = "local" → r.command = some command →
      r.Runs (.«local» command r.args r.env (r.timeoutSecs.getD DEFAULT_LOCAL_TIMEOUT))
  | sidecar {endpoint : String} : r.kind = "sidecar" → r.endpoint = some endpoint →
      r.Runs (.sidecar endpoint)

theorem RawPlugin.runtime_ok {r : RawPlugin} {kind : PluginKind} (h : r.runtime = .ok kind) :
    r.Allowed ∧ r.Runs kind := by
  unfold RawPlugin.runtime at h
  split at h
  · rename_i hkind
    cases hc : r.command with
    | some command => rw [hc] at h; cases h
    | none =>
    cases he : r.endpoint with
    | some endpoint => rw [hc, he] at h; cases h
    | none =>
        rw [hc, he] at h
        obtain rfl := Except.ok.inj h
        exact ⟨.inl ⟨hkind, hc, he⟩, .raw hkind⟩
  · rename_i hkind
    cases hc : r.command with
    | none => rw [hc] at h; cases h
    | some command =>
    cases he : r.endpoint with
    | some endpoint => rw [hc, he] at h; cases h
    | none =>
        rw [hc, he] at h
        obtain rfl := Except.ok.inj h
        exact ⟨.inr (.inl ⟨hkind, by rw [hc]; simp, he⟩), .«local» hkind hc⟩
  · rename_i hkind
    cases he : r.endpoint with
    | none => rw [he] at h; cases h
    | some endpoint =>
    cases hc : r.command with
    | some command => rw [hc, he] at h; cases h
    | none =>
        rw [hc, he] at h
        obtain rfl := Except.ok.inj h
        exact ⟨.inr (.inr ⟨hkind, by rw [he]; simp, hc⟩), .sidecar hkind he⟩
  · cases h

theorem RawPlugin.runtime_of_allowed {r : RawPlugin} (h : r.Allowed) :
    ∃ kind, r.runtime = .ok kind := by
  unfold RawPlugin.runtime
  rcases h with ⟨hkind, hc, he⟩ | ⟨hkind, hc, he⟩ | ⟨hkind, he, hc⟩
  · rw [hkind, hc, he]
    exact ⟨_, rfl⟩
  · obtain ⟨command, hc⟩ := Option.ne_none_iff_exists'.mp hc
    rw [hkind, hc, he]
    exact ⟨_, rfl⟩
  · obtain ⟨endpoint, he⟩ := Option.ne_none_iff_exists'.mp he
    rw [hkind, hc, he]
    exact ⟨_, rfl⟩

theorem RawPlugin.validate_ok {r : RawPlugin} {c : PluginConfig} (h : r.validate = .ok c) :
    r.Allowed ∧ c.name = r.name ∧ r.Runs c.kind := by
  unfold RawPlugin.validate at h
  cases hr : r.runtime with
  | error e => rw [hr] at h; cases h
  | ok kind =>
      rw [hr] at h
      obtain rfl := Except.ok.inj h
      obtain ⟨hallowed, hruns⟩ := RawPlugin.runtime_ok hr
      exact ⟨hallowed, rfl, hruns⟩

theorem RawPlugin.validate_of_allowed {r : RawPlugin} (h : r.Allowed) :
    ∃ c, r.validate = .ok c := by
  obtain ⟨kind, hr⟩ := RawPlugin.runtime_of_allowed h
  refine ⟨⟨r.name, kind⟩, ?_⟩
  unfold RawPlugin.validate
  rw [hr]
  rfl

/-! ### The loop -/

/-- Whatever the loop accepts has been validated. -/
theorem allowed_of_parseLoop {raws : List RawPlugin} {seen : List String}
    {map out : HashMap String PluginConfig} (h : parseLoop raws seen map = .ok out) :
    ∀ r ∈ raws, r.Allowed := by
  induction raws generalizing seen map with
  | nil => exact nofun
  | cons raw rest ih =>
      rw [parseLoop] at h
      split at h
      · cases h
      · cases hv : raw.validate with
        | error e => rw [hv] at h; cases h
        | ok config =>
            rw [hv] at h
            exact List.forall_mem_cons.mpr ⟨(RawPlugin.validate_ok hv).1, ih h⟩

/-- **Plugins of distinct names whose fields are allowed are all accepted**, each under its
name, and nothing else is changed. -/
theorem parseLoop_of_allowed {raws : List RawPlugin} {seen : List String}
    (map : HashMap String PluginConfig) (hnames : (raws.map RawPlugin.name).Nodup)
    (hseen : ∀ r ∈ raws, r.name ∉ seen) (hallowed : ∀ r ∈ raws, r.Allowed) :
    ∃ out, parseLoop raws seen map = .ok out ∧
      (∀ r ∈ raws, ∃ c, out.lookup r.name = some c ∧ r.validate = .ok c) ∧
      ∀ name ∉ raws.map RawPlugin.name, out.lookup name = map.lookup name := by
  induction raws generalizing seen map with
  | nil => exact ⟨map, rfl, nofun, fun _ _ => rfl⟩
  | cons raw rest ih =>
      obtain ⟨hraw, hrest⟩ := List.forall_mem_cons.mp hallowed
      obtain ⟨hnot, hnodup⟩ := List.nodup_cons.mp hnames
      obtain ⟨config, hconfig⟩ := RawPlugin.validate_of_allowed hraw
      have hseen' : ∀ r ∈ rest, r.name ∉ raw.name :: seen := by
        intro r hr hmem
        rcases List.mem_cons.mp hmem with heq | hmem
        · exact hnot (heq ▸ List.mem_map_of_mem hr)
        · exact hseen r (List.mem_cons_of_mem _ hr) hmem
      obtain ⟨out, hout, hlookup, hother⟩ := ih (map.insert raw.name config) hnodup hseen' hrest
      refine ⟨out, ?_, List.forall_mem_cons.mpr ⟨⟨config, ?_, hconfig⟩, hlookup⟩, ?_⟩
      · rw [parseLoop, if_neg (hseen raw List.mem_cons_self), hconfig]
        exact hout
      · rw [hother raw.name hnot, AList.lookup_insert]
      · intro name hname
        rw [List.map_cons, List.mem_cons, not_or] at hname
        rw [hother name hname.2, AList.lookup_insert_ne hname.1]

/-! ### The reading -/

section

variable [YamlReading]

theorem readPlugins_ok {vs : List Value} {raws : List RawPlugin} (h : readPlugins vs = .ok raws) :
    List.Forall₂ (fun v r => RawPlugin.ofValue v = .ok r) vs raws := by
  induction vs generalizing raws with
  | nil =>
      obtain rfl := Except.ok.inj h
      exact .nil
  | cons v vs ih =>
      rw [readPlugins] at h
      cases hv : RawPlugin.ofValue v with
      | error e => rw [hv] at h; cases h
      | ok raw =>
      cases hvs : readPlugins vs with
      | error e => rw [hv, hvs] at h; cases h
      | ok rest =>
          rw [hv, hvs] at h
          obtain rfl := Except.ok.inj h
          exact .cons hv (ih hvs)

theorem readPlugins_of_forall₂ {vs : List Value} {raws : List RawPlugin}
    (h : List.Forall₂ (fun v r => RawPlugin.ofValue v = .ok r) vs raws) :
    readPlugins vs = .ok raws := by
  induction h with
  | nil => rfl
  | cons hv _ ih =>
      rw [readPlugins, hv, ih]
      rfl

end

end SynchrotronCD.PluginRegistry
