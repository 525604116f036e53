import Allama.Alternations
import Allama.DSLTypes
import Allama.Identifiers
import Allama.RecordFields
import Allama.Runs

/-! Versions of registry repositories: `sync_repository_v2` in both of its ways (`registry/sync/base_service.py`,
`registry/sync/runner.py`) and the promotion of versions. -/
namespace Allama
namespace RegistrySyncs
open RecordFields
section Records

/-- What is stored of an action in manifests and in index entries. -/
structure ActionFields where
  namespace_ : Text
  name : Text
  action_type : Text
  description : Text
  default_title : Option Text
  display_group : Option Text
  doc_url : Option Text
  author : Option Text
  deprecated : Option Text
  secrets : Option (List Value)
  interface : Value
  options : Value

structure RegistryActionCreate extends ActionFields where
  implementation : Value

structure ManifestAction extends ActionFields where
  implementation : Value

def fromActionCreate (action : RegistryActionCreate) : ManifestAction := ⟨action.toActionFields,action.implementation⟩

/-- `f"{action.namespace}.{action.name}"`. -/
def RegistryActionCreate.action (action : RegistryActionCreate) : Text := action.namespace_ ++ '.' :: action.name

/-- The dict of actions of a manifest. -/
abbrev Manifest : Type := List (Text × ManifestAction)

def fromActions (actions : List RegistryActionCreate) : Manifest :=
  actions.foldl (fun manifest action => put action.action (fromActionCreate action) manifest) []

def indexEntry (action : ManifestAction) : ActionFields :=
  { action.toActionFields with secrets := action.secrets.filter fun secrets => !secrets.isEmpty }

structure RegistryVersion where
  id : ℕ
  repository_id : ℕ
  version : Text
  commit_sha : Option Text
  manifest : Manifest
  tarball_uri : Text
  index_entries : List ActionFields

structure RegistryRepository where
  id : ℕ
  origin : Text
  current_version_id : Option ℕ

/-- The repositories of the organization and their versions, in the order in which they were created. -/
structure State where
  repositories : List RegistryRepository
  versions : List RegistryVersion

end Records

section Origins

def defaultRegistryOrigin : Text := "allama_registry".toList

def defaultLocalRegistryOrigin : Text := "local".toList

def gitPrefix : Text := "git+ssh://".toList

inductive OriginType
  | builtin
  | localRegistry
  | git
deriving DecidableEq, Repr

/-- `_get_origin_type`; other origins raise. -/
def getOriginType (origin : Text) : Option OriginType :=
  if origin = defaultRegistryOrigin then some .builtin
  else if origin = defaultLocalRegistryOrigin then some .localRegistry
  else if gitPrefix.isPrefixOf origin then some .git
  else none

/-- `slug.replace(old, "")`. -/
def remove (old slug : Text) : Text := Alternations.replace [old] [] 0 slug

def isSlugChar (c : Char) : Bool := c.isAlphanum || c = '_' || c = '-'

/-- `re.sub(r"_+", "_", slug)`. -/
def collapse : Text → Text
  | [] => []
  | c :: cs => if c = '_' ∧ cs.head? = some '_' then collapse cs else c :: collapse cs

/-- `slug.strip("_")`. -/
def stripUnderscores (slug : Text) : Text :=
  ((slug.dropWhile (· = '_')).reverse.dropWhile (· = '_')).reverse

def slugifyOrigin (origin : Text) : Text :=
  let slug := remove "http://".toList (remove "https://".toList (remove gitPrefix origin))
  let slug := slug.map fun c => if isSlugChar c then c else '_'
  (stripUnderscores (collapse slug)).take 100

/-- The bucket of the registry, the organization, and the version of the installed `allama_registry`. -/
structure Config where
  bucket : Text
  organization_id : Text
  registry_version : Text

/-- `s3://{bucket}/{key}` with the key of `get_tarball_venv_s3_key`. -/
def tarballUri (config : Config) (origin version : Text) : Text :=
  "s3://".toList ++ config.bucket ++ '/' :: config.organization_id ++ "/tarball-venvs/".toList ++ slugifyOrigin origin ++
    '/' :: version ++ "/site-packages.tar.gz".toList

end Origins

section Syncs

/-- What there is at an origin: the commit that a clone checks out, and the actions at a commit, or of the package where the origin
has no commits. `Repository.store` is a dict, so that the names of the actions are distinct. -/
structure Source where
  head : Text
  actions : Option Text → List RegistryActionCreate
  distinct : ∀ commit, ((actions commit).map RegistryActionCreate.action).Nodup

/-- A call of `sync_repository_v2`, with the times for version strings that it and the upload of its workflow read, and whether
something raises that is not modelled (the package cannot be installed, the upload or the database fails). -/
structure Sync where
  repository_id : ℕ
  sandboxed : Bool
  target_version : Option Text
  target_commit_sha : Option Text
  source : Source
  now : Text
  uploaded : Text
  fails : Bool

variable (config : Config)

/-- `fetch_actions_from_subprocess`: the actions, and the commit unless the origin has none. -/
def fetchActions (source : Source) (commit_sha : Option Text) : OriginType → List RegistryActionCreate × Option Text
  | .git =>
    let commit := commit_sha.getD source.head
    (source.actions (some commit),some commit)
  | _ => (source.actions none,none)

/-- `commit_sha[:7]`, unless there is no commit. -/
def shortCommit (commit_sha : Option Text) (otherwise : Text) : Text :=
  match commit_sha with
  | some (c :: cs) => (c :: cs).take 7
  | _ => otherwise

def generateVersionString (origin : Text) (commit_sha : Option Text) (now : Text) : Text :=
  shortCommit commit_sha (if origin = defaultRegistryOrigin then config.registry_version else now)

/-- What a sync finds: the actions, the commit, the version string, and where the tarball of a new version is. -/
structure Fetched where
  actions : List RegistryActionCreate
  commit_sha : Option Text
  version : Text
  tarball_uri : Text

/-- The sync without the workflow. -/
def fetchDirectly (sync : Sync) (origin : Text) (type : OriginType) : Fetched :=
  let fetched := fetchActions sync.source sync.target_commit_sha type
  let version := sync.target_version.getD (generateVersionString config origin fetched.2 sync.now)
  ⟨fetched.1,fetched.2,version,tarballUri config origin version⟩

/-- The sync by the workflow, whose activity discovers the actions of the origin without the commit, and uploads the tarball. -/
def fetchSandboxed (sync : Sync) (origin : Text) (type : OriginType) : Fetched :=
  let commit_sha := if type = .git then sync.target_commit_sha else none
  let fetched := fetchActions sync.source none type
  ⟨fetched.1,commit_sha,sync.target_version.getD (generateVersionString config origin commit_sha sync.now),
    tarballUri config origin (shortCommit commit_sha sync.uploaded)⟩

def fetch (sync : Sync) (origin : Text) (type : OriginType) : Fetched :=
  if sync.sandboxed then fetchSandboxed config sync origin type else fetchDirectly config sync origin type

def State.repository (st : State) (id : ℕ) : Option RegistryRepository := st.repositories.find? fun repo => repo.id = id

/-- `get_version_by_repo_and_version`. -/
def State.existing (st : State) (repository_id : ℕ) (version : Text) : Option RegistryVersion :=
  st.versions.find? fun v => v.repository_id = repository_id && v.version = version

/-- A repository points to another version. -/
def State.promote (st : State) (repository_id version_id : ℕ) : State :=
  { st with repositories := st.repositories.map fun repo =>
      if repo.id = repository_id then { repo with current_version_id := some version_id } else repo }

def newVersion (st : State) (repository_id : ℕ) (fetched : Fetched) : RegistryVersion where
  id := st.versions.length
  repository_id := repository_id
  version := fetched.version
  commit_sha := fetched.commit_sha
  manifest := fromActions fetched.actions
  tarball_uri := fetched.tarball_uri
  index_entries := (fromActions fetched.actions).map fun entry => indexEntry entry.2

/-- `sync_repository_v2`: the version that it returns, unless it raises. -/
def syncRepository (st : State) (sync : Sync) : Option (State × RegistryVersion) :=
  if sync.fails then none
  else (st.repository sync.repository_id).bind fun repo => (getOriginType repo.origin).bind fun type =>
    let fetched := fetch config sync repo.origin type
    if fetched.actions.isEmpty then none
    else match st.existing repo.id fetched.version with
      | some version => some (st,version)
      | none =>
        let version := newVersion st repo.id fetched
        some ({ st with versions := st.versions ++ [version] }.promote repo.id version.id,version)

/-- `promote_version`, unless it raises. -/
def promoteVersion (st : State) (repository_id version_id : ℕ) : Option State :=
  (st.versions.find? fun v => v.id = version_id).bind fun version =>
    if version.repository_id = repository_id ∧ version.tarball_uri ≠ [] then some (st.promote repository_id version.id) else none

inductive Action
  | sync (sync : Sync)
  | promote (repository_id version_id : ℕ)

/-- A call that raises is rolled back. -/
def next (st : State) : Action → Option State
  | .sync sync => some (((syncRepository config st sync).map Prod.fst).getD st)
  | .promote repository_id version_id => some ((promoteVersion st repository_id version_id).getD st)

def started (repositories : List RegistryRepository) : State := ⟨repositories,[]⟩

/-- The commit that a sync is for: the one that is asked for, or the one at the origin. -/
def Sync.commit (sync : Sync) (type : OriginType) : Option Text :=
  if type = .git then some (sync.target_commit_sha.getD sync.source.head) else none

/-- A sync whose workflow is asked for the commit at the origin, and whose version string is new, with a tarball location that no
stored version has, or is that of the current version of the repository, of the same commit and the same actions. -/
def Fits (st : State) : Action → Prop
  | .promote _ _ => True
  | .sync sync => ∀ repo type, st.repository sync.repository_id = some repo → getOriginType repo.origin = some type →
      (sync.sandboxed = true → type = .git → sync.target_commit_sha = some sync.source.head) ∧
        match st.existing repo.id (fetch config sync repo.origin type).version with
        | none => ∀ v ∈ st.versions, v.tarball_uri ≠ (fetch config sync repo.origin type).tarball_uri
        | some version => repo.current_version_id = some version.id ∧ version.commit_sha = sync.commit type ∧
            version.manifest = fromActions (sync.source.actions (sync.commit type))

/-- What a sync that succeeds comes to: a stored version of the repository and the commit, with exactly its actions, that is the
current version. -/
structure Succeeds (sync : Sync) (repo : RegistryRepository) (type : OriginType) (st : State) (version : RegistryVersion) :
    Prop where
  stored : version ∈ st.versions
  repository : version.repository_id = repo.id
  commit : version.commit_sha = sync.commit type
  manifest : version.manifest.map Prod.snd = (sync.source.actions (sync.commit type)).map fromActionCreate
  index : version.index_entries = (sync.source.actions (sync.commit type)).map fun action => indexEntry (fromActionCreate action)
  current : (st.repository repo.id).bind RegistryRepository.current_version_id = some version.id

end Syncs
end RegistrySyncs
end Allama
