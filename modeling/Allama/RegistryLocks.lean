import Mathlib.Data.Finset.Sort
import Mathlib.Data.String.Basic
import Allama.RecordFields
import Allama.Worklists

/-! Registries, the lock of the actions that a workflow needs (`registry/lock/service.py`), and how an executor resolves
an action of a lock (`executor/registry_resolver.py`). -/
namespace Allama
namespace RegistryLock
open RecordFields Worklists

def defaultRegistryOrigin : String := "allama_registry"

structure ActionStep where
  ref : String
  action : String

/-- `definition`, with the fields that only an execution reads in `rest`. -/
structure TemplateActionDefinition (Secret Rest : Type) where
  secrets : Option (List Secret) := none
  steps : List ActionStep
  rest : Rest

inductive RegistryActionImpl (Secret Rest : Type)
  | udf (url module name : String)
  | template (definition : TemplateActionDefinition Secret Rest)

/-- An action of a manifest; its implementation is a dict that has not been validated. -/
structure ManifestAction (Raw Secret : Type) where
  secrets : Option (List Secret) := none
  implementation : Raw

/-- `manifest.actions`. -/
abbrev Manifest (Raw Secret : Type) := List (String × ManifestAction Raw Secret)

structure Repository where
  id : ℕ
  origin : String
  currentVersionId : Option ℕ

structure Version (Raw Secret : Type) where
  id : ℕ
  repositoryId : ℕ
  version : String
  manifest : Manifest Raw Secret

/-- The repositories and versions of the platform, or of an organization. -/
structure Registry (Raw Secret : Type) where
  repositories : List Repository
  versions : List (Version Raw Secret)

/-- The unique keys of the tables, and that a version is promoted in its own repository only. -/
structure Registry.WellFormed {Raw Secret : Type} (registry : Registry Raw Secret) : Prop where
  repositoryIds : (registry.repositories.map Repository.id).Nodup
  origins : (registry.repositories.map Repository.origin).Nodup
  versionIds : (registry.versions.map Version.id).Nodup
  versions : (registry.versions.map fun v => (v.repositoryId,v.version)).Nodup
  current : ∀ r ∈ registry.repositories, ∀ id, r.currentVersionId = some id →
    ∃ v ∈ registry.versions, v.id = id ∧ v.repositoryId = r.id
  actions : ∀ v ∈ registry.versions, (v.manifest.map Prod.fst).Nodup

inductive Scope
  | platform
  | organization
deriving DecidableEq

/-- What one organization can see. -/
structure Registries (Raw Secret : Type) where
  platform : Registry Raw Secret
  organization : Registry Raw Secret

def Registries.at {Raw Secret : Type} (registries : Registries Raw Secret) : Scope → Registry Raw Secret
  | .platform => registries.platform
  | .organization => registries.organization

structure Lock where
  origins : List (String × String)
  actions : List (String × String)

inductive RegistryError
  /-- `Action '{action_name}' not found in any registry. Available registries: {list(origins.keys())}` -/
  | actionNotFound (action : String) (origins : List String)
  /-- `Ambiguous action '{action_name}' found in multiple registries: {matching_origins}.` -/
  | ambiguous (action : String) (origins : List String)
  /-- `Template action '{action_name}' contains step '{step.ref}' using platform action '{step.action}'.` -/
  | platformStep (action : String) (step : ActionStep)
  /-- `Action '{action_name}' not bound in registry_lock.` -/
  | notBound (action : String) (available : List String)
  /-- `Origin '{origin}' not found in registry_lock.` -/
  | originNotFound (origin : String) (available : List String)
  /-- `{table_type} version not found: origin={origin!r}, version={version!r}` -/
  | versionNotFound (scope : Scope) (origin version : String)
  /-- `Action '{action_name}' not found in manifest for origin={origin!r}, version={version!r}` -/
  | notInManifest (action origin version : String)

inductive ResolveError
  | registryError (error : RegistryError)
  | validationError
  | multipleResultsFound
  | recursionError

def interfaceActions : List String :=
  ["core.workflow.execute","core.transform.scatter","core.transform.gather","ai.agent","ai.preset_agent","core.script.run_python"]

section Service
variable {Raw Secret Rest : Type} (validatePython : Raw → Option (RegistryActionImpl Secret Rest))
  (registries : Registries Raw Secret)

def currentVersions (registry : Registry Raw Secret) : List (String × Version Raw Secret) :=
  registry.repositories.filterMap fun r =>
    (r.currentVersionId.bind fun id => registry.versions.find? (·.id = id)).map fun v => (r.origin,v)

/-- `origins` and `origin_manifests`, with the tables that the versions are in: an organization's registry replaces a
platform's of the same origin. -/
def originVersions : List (String × Scope × Version Raw Secret) :=
  ((currentVersions registries.platform).map (fun row => (row.1,Scope.platform,row.2)) ++
    (currentVersions registries.organization).map fun row => (row.1,Scope.organization,row.2)).foldl
      (fun origins row => put row.1 row.2 origins) []

def matchingOrigins (action : String) : List String :=
  ((originVersions registries).filter fun row => (row.2.2.manifest.lookup action).isSome).map Prod.fst

/-- The origin of an action and the actions of its steps. -/
def bindAction (action : String) : Except ResolveError (String × List String) :=
  match matchingOrigins registries action with
  | [] => .error (.registryError (.actionNotFound action ((originVersions registries).map Prod.fst)))
  | origin :: other :: more => .error (.registryError (.ambiguous action (origin :: other :: more)))
  | [origin] =>
    match ((originVersions registries).lookup origin).bind fun row => row.2.manifest.lookup action with
    | none => .ok (origin,[])
    | some manifestAction =>
      match validatePython manifestAction.implementation with
      | none => .error .validationError
      | some (.udf _ _ _) => .ok (origin,[])
      | some (.template definition) =>
        match definition.steps.find? (·.action ∈ interfaceActions) with
        | some step => .error (.registryError (.platformStep action step))
        | none => .ok (origin,definition.steps.map ActionStep.action)

/-- `resolve_lock_with_bindings` within a number of turns of its loop. -/
def resolveLockWithBindings (turns : ℕ) (actionNames : Finset String) : Option (Except ResolveError Lock) :=
  (search (bindAction validatePython registries) turns (actionNames.sort (· ≤ ·)) []).map fun result =>
    result.map fun actions =>
      { origins := ((originVersions registries).map fun row => (row.1,row.2.2.version)).filter fun origin =>
          origin.1 ∈ actions.map Prod.snd
        actions := actions }

/-- `_fetch_manifest`, with the table and the row that it is read from. -/
def fetchManifest (origin version : String) : Except ResolveError (Scope × Version Raw Secret) :=
  let scope := if origin = defaultRegistryOrigin then Scope.platform else .organization
  let registry := registries.at scope
  match registry.versions.filter fun v =>
      v.version = version ∧ registry.repositories.any (fun r => r.id = v.repositoryId ∧ r.origin = origin) with
  | [] => .error (.registryError (.versionNotFound scope origin version))
  | [v] => .ok (scope,v)
  | _ :: _ :: _ => .error .multipleResultsFound

structure ActionImplementation (Secret Rest : Type) where
  type : String
  actionName : String
  module : Option String := none
  name : Option String := none
  templateDefinition : Option (TemplateActionDefinition Secret Rest) := none
  origin : String

/-- The entry of an action in the index. -/
def actionImplementation (origin action : String) : RegistryActionImpl Secret Rest → ActionImplementation Secret Rest
  | .udf _ module name => { type := "udf", actionName := action, module := module, name := name, origin := origin }
  | .template definition => { type := "template", actionName := action, templateDefinition := definition, origin := origin }

def buildImplIndex (manifest : Manifest Raw Secret) (origin : String) :
    Except ResolveError (List (String × ActionImplementation Secret Rest)) :=
  manifest.mapM fun entry =>
    match validatePython entry.2.implementation with
    | none => .error .validationError
    | some impl => .ok (entry.1,actionImplementation origin entry.1 impl)

/-- `_get_manifest_entry`. Versions do not change, so that what is cached is what would be fetched. -/
def getManifestEntry (origin version : String) :
    Except ResolveError (Manifest Raw Secret × List (String × ActionImplementation Secret Rest)) := do
  let row ← fetchManifest registries origin version
  let index ← buildImplIndex validatePython row.2.manifest origin
  .ok (row.2.manifest,index)

def resolveAction (action : String) (lock : Lock) : Except ResolveError (ActionImplementation Secret Rest) :=
  match lock.actions.lookup action with
  | none => .error (.registryError (.notBound action (lock.actions.map Prod.fst)))
  | some origin =>
    match lock.origins.lookup origin with
    | none => .error (.registryError (.originNotFound origin (lock.origins.map Prod.fst)))
    | some version => do
      let entry ← getManifestEntry validatePython registries origin version
      match entry.2.lookup action with
      | none => .error (.registryError (.notInManifest action origin version))
      | some implementation => .ok implementation

/-- `collect_action_secrets_from_manifest`: the action in the manifest of its origin. -/
def boundAction (action : String) (lock : Lock) : Except ResolveError (ManifestAction Raw Secret) :=
  match lock.actions.lookup action with
  | none => .error (.registryError (.notBound action (lock.actions.map Prod.fst)))
  | some origin =>
    match lock.origins.lookup origin with
    | none => .error (.registryError (.originNotFound origin (lock.origins.map Prod.fst)))
    | some version => do
      let entry ← getManifestEntry validatePython registries origin version
      match entry.1.lookup action with
      | none => .error (.registryError (.notInManifest action origin version))
      | some manifestAction => .ok manifestAction

/-- The action of a step; one that is not bound, or not in a manifest, is passed over. -/
def stepAction (lock : Lock) (action : String) : Except ResolveError (Option (ManifestAction Raw Secret)) :=
  match lock.actions.lookup action with
  | none => .ok none
  | some origin =>
    match lock.origins.lookup origin with
    | none => .ok none
    | some version =>
      match getManifestEntry validatePython registries origin version with
      | .ok entry => .ok (entry.1.lookup action)
      | .error (.registryError _) => .ok none
      | .error err => .error err

/-- `_collect_secrets_recursive`, where calls may nest as deep as `depth`. -/
def collectSecretsRecursive (lock : Lock) : ℕ → ManifestAction Raw Secret → List Secret → Except ResolveError (List Secret)
  | 0, _, _ => .error .recursionError
  | depth+1, manifestAction, secrets =>
    match validatePython manifestAction.implementation with
    | none => .error .validationError
    | some (.udf _ _ _) => .ok (secrets ++ manifestAction.secrets.getD [])
    | some (.template definition) =>
      definition.steps.foldlM (fun secrets step => do
        match ← stepAction validatePython registries lock step.action with
        | none => .ok secrets
        | some found => collectSecretsRecursive lock depth found secrets) (secrets ++ definition.secrets.getD [])

def collectActionSecretsFromManifest (depth : ℕ) (action : String) (lock : Lock) : Except ResolveError (List Secret) := do
  let manifestAction ← boundAction validatePython registries action lock
  collectSecretsRecursive validatePython registries lock depth manifestAction []

end Service
end RegistryLock
end Allama
