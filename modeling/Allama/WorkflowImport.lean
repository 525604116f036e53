import Allama.Folders
import Allama.ShortIds
import Allama.WorkflowRecords

/-! Workflows imported from a git repository (`workflow/store/import_service.py`, `workflow/schedules/service.py`). -/
namespace Allama
namespace Sync
open Management

inductive Status
  | online
  | offline
deriving DecidableEq

inductive TriggerType
  | schedule
  | webhook
deriving DecidableEq

structure Trigger where
  type : TriggerType
  ref : String
  args : List (String × Value) := []

/-- The definition with the fields that no row of the workflow stores. -/
structure DSLInput extends Management.DSLInput where
  entrypointRef : Option String := none
  triggers : List Trigger := []

/-- The name of the tag. -/
structure RemoteWorkflowTag where
  name : String
deriving DecidableEq

structure RemoteWebhook where
  methods : List String
  status : Status
deriving DecidableEq

/-- Durations and times are in microseconds, times since the epoch. -/
structure RemoteWorkflowSchedule where
  status : Status
  cron : Option String
  every : Option ℤ
  offset : Option ℤ
  startAt : Option ℤ
  endAt : Option ℤ
  timeout : Option ℚ
deriving DecidableEq

structure RemoteWorkflowDefinition where
  id : Uuid
  workflowAlias : Option String
  folderPath : Option Text
  tags : Option (List RemoteWorkflowTag)
  schedules : Option (List RemoteWorkflowSchedule)
  webhook : Option RemoteWebhook
  definition : DSLInput

/-! The rows of a workspace. -/

structure Tag where
  id : Uuid
  name : String
  ref : String
  color : Option String
deriving DecidableEq

structure Schedule where
  id : Uuid
  workflowId : Uuid
  status : Status
  cron : Option String
  inputs : List (String × Value)
  every : Option ℤ
  offset : Option ℤ
  startAt : Option ℤ
  endAt : Option ℤ
  timeout : Option ℚ

structure Webhook where
  workflowId : Uuid
  methods : List String
  status : Status

structure Definition where
  workflowId : Uuid
  version : ℕ
  content : DSLInput
  workflowAlias : Option String

/-- The row of a workflow with its actions. Its folder is in the workspace of the folders. -/
structure WorkflowRecord where
  row : Management.WorkflowRow
  workflowAlias : Option String
  version : Option ℕ

/-- The rows of a workspace under the constraints that matter here: the ids of schedules are unique, and a tag of a
workflow is there. -/
structure Database where
  space : Workspace
  workflows : List WorkflowRecord
  definitions : List Definition
  tags : List Tag
  /-- The id of a tag and the id of a workflow that has it. -/
  workflowTags : List (Uuid × Uuid)
  schedules : List Schedule
  webhooks : List Webhook
  /-- The workflows of other workspaces, whose ids are taken. -/
  elsewhere : List Uuid
  schedule_ids : (schedules.map Schedule.id).Nodup
  tags_exist : ∀ a ∈ workflowTags, a.1 ∈ tags.map Tag.id

inductive ImportError
  | management (error : ManagementError)
  | folder (error : FolderError)
  | validationError (model : String)
  | lockError
  | integrityError
  | attributeError

/-- The packages, and the registry that action names are looked up in. -/
structure ImportPackages extends Management.Packages where
  /-- `croniter.is_valid`. -/
  isValidCron : String → Bool
  /-- Whether `resolve_lock_with_bindings` finds the actions of these names. -/
  resolvesLock : List String → Bool
  /-- `repr` of a text and `str` of an exception, in messages. -/
  repr : String → String
  describe : ImportError → String

/-- The ids that `uuid4` draws in one import. -/
structure Draws where
  action : String → Uuid
  folder : Text → Uuid
  tag : String → Uuid
  schedule : ℕ → Uuid

namespace Database
variable (db : Database)

/-- `get_workflow`. The edges that it drops from the actions are those of the same workflow. -/
def getWorkflow (id : Uuid) : Option WorkflowRecord := db.workflows.find? (·.row.id = id)

def aliasTaken (id : Uuid) (workflowAlias : Option String) : Bool :=
  workflowAlias.any fun a => db.workflows.any fun w => w.row.id ≠ id ∧ w.workflowAlias = some a

def latestVersion (id : Uuid) : ℕ :=
  ((db.definitions.filter (·.workflowId = id)).map Definition.version).foldr max 0

/-- `create_workflow_definition`; the new version is the one after the latest. -/
def createWorkflowDefinition (id : Uuid) (dsl : DSLInput) (workflowAlias : Option String) : Database :=
  {db with definitions := db.definitions ++ [⟨id,db.latestVersion id+1,dsl,workflowAlias⟩]}

def updateRecord (id : Uuid) (f : WorkflowRecord → WorkflowRecord) : Database :=
  {db with workflows := db.workflows.map fun w => if w.row.id = id then f w else w}

/-- `workflow.folder_id = folder_id`. -/
def moveWorkflow (id : Uuid) (folderId : Option Uuid) : Database :=
  {db with space := {db.space with
    workflows := db.space.workflows.map fun w => if w.id = id then {w with folderId := folderId} else w}}

/-- The ids of `workflow.tags`. -/
def tagsOf (id : Uuid) : List Uuid := (db.workflowTags.filter (·.2 = id)).map (·.1)

/-- `session.delete` of a row of `Tag`: the rows of `workflow_tag` that name the tag go with it, on each side of
the relationship and by the foreign key. -/
def deleteTag (id : Uuid) : Database :=
  {db with
    tags := db.tags.filter (·.id ≠ id)
    workflowTags := db.workflowTags.filter (·.1 ≠ id)
    tags_exist := by
      intro a ha
      obtain ⟨ha,hne⟩ := List.mem_filter.mp ha
      obtain ⟨tag,htag,heq⟩ := List.mem_map.mp (db.tags_exist a ha)
      refine List.mem_map.mpr ⟨tag,List.mem_filter.mpr ⟨htag,?_⟩,heq⟩
      rwa [heq]}

/-- `delete_schedule`, in the database. -/
def deleteSchedule (id : Uuid) : Database :=
  {db with
    schedules := db.schedules.filter (·.id ≠ id)
    schedule_ids := (List.filter_sublist.map Schedule.id).nodup db.schedule_ids}

/-- `list_schedules` of a workflow. -/
def schedulesOf (id : Uuid) : List Schedule := db.schedules.filter (·.workflowId = id)

end Database

/-- `tag_name.lower().replace(" ", "-")`. -/
def tagRef (name : String) : String :=
  String.ofList (name.toList.map fun c => if c = ' ' then '-' else c.toLower)

def defaultTagColor : String := "#6B7280"

/-- `_find_or_create_tag`; a new tag meets the constraints on ids, names and refs. -/
def findOrCreateTag (uuid4 : String → Uuid) (name : String) (db : Database) : Except ImportError (Tag × Database) :=
  match db.tags.find? (·.name = name) with
  | some tag => .ok (tag,db)
  | none =>
    let tag : Tag := ⟨uuid4 name,name,tagRef name,some defaultTagColor⟩
    if db.tags.any fun t => t.id = tag.id ∨ t.ref = tag.ref then .error .integrityError
    else
      .ok (tag,{db with
        tags := db.tags ++ [tag]
        tags_exist := by
          intro a ha
          rw [List.map_append]
          exact List.mem_append_left _ (db.tags_exist a ha)})

def addWorkflowTag (workflowId tagId : Uuid) (db : Database) : Except ImportError Database :=
  if (tagId,workflowId) ∈ db.workflowTags then .error .integrityError
  else if h : tagId ∈ db.tags.map Tag.id then
    .ok {db with
      workflowTags := db.workflowTags ++ [(tagId,workflowId)]
      tags_exist := by
        intro a ha
        rcases List.mem_append.mp ha with ha | ha
        · exact db.tags_exist a ha
        · rwa [List.mem_singleton.mp ha]}
  else .error .integrityError

def createTag (uuid4 : String → Uuid) (workflowId : Uuid) (db : Database) (tag : RemoteWorkflowTag) :
    Except ImportError Database := do
  let (found,db) ← findOrCreateTag uuid4 tag.name db
  addWorkflowTag workflowId found.id db

def createTags (uuid4 : String → Uuid) (workflowId : Uuid) (remoteTags : Option (List RemoteWorkflowTag))
    (db : Database) : Except ImportError Database :=
  (remoteTags.getD []).foldlM (createTag uuid4 workflowId) db

def updateTags (uuid4 : String → Uuid) (workflowId : Uuid) (remoteTags : Option (List RemoteWorkflowTag))
    (db : Database) : Except ImportError Database :=
  createTags uuid4 workflowId remoteTags ((db.tagsOf workflowId).foldl Database.deleteTag db)

structure ScheduleCreate where
  workflowId : Uuid
  inputs : Option (List (String × Value)) := none
  cron : Option String
  every : Option ℤ
  offset : Option ℤ
  startAt : Option ℤ
  endAt : Option ℤ
  status : Status
  timeout : ℚ

section Imports
variable (P : ImportPackages)

/-- The construction, with its validators. -/
def ScheduleCreate.new (params : ScheduleCreate) : Except ImportError ScheduleCreate :=
  if params.cron.any fun cron => cron ≠ "" ∧ !P.isValidCron cron then .error (.validationError "ScheduleCreate")
  else if params.cron = none ∧ params.every = none then .error (.validationError "ScheduleCreate")
  else .ok params

/-- `create_schedule`. The status is not taken from the parameters. -/
def createSchedule (id : Uuid) (params : ScheduleCreate) (db : Database) : Except ImportError Database :=
  let schedule : Schedule :=
    {id := id
     workflowId := params.workflowId
     inputs := params.inputs.getD []
     every := params.every
     offset := params.offset
     startAt := params.startAt
     endAt := params.endAt
     timeout := some params.timeout
     cron := params.cron
     status := .online}
  if h : id ∈ db.schedules.map Schedule.id then .error .integrityError
  else
    .ok {db with
      schedules := db.schedules ++ [schedule]
      schedule_ids := by
        rw [List.map_append, List.map_singleton]
        exact List.nodup_append_comm.mp (List.nodup_cons.mpr ⟨h,db.schedule_ids⟩)}

def importSchedule (uuid4 : ℕ → Uuid) (workflowId : Uuid) (db : Database) (data : RemoteWorkflowSchedule × ℕ) :
    Except ImportError Database := do
  let params ← ScheduleCreate.new P
    {workflowId := workflowId
     cron := data.1.cron
     every := data.1.every
     offset := data.1.offset
     startAt := data.1.startAt
     endAt := data.1.endAt
     timeout := data.1.timeout.getD 0
     status := data.1.status}
  createSchedule (uuid4 data.2) params db

def createSchedules (uuid4 : ℕ → Uuid) (workflowId : Uuid) (remoteSchedules : Option (List RemoteWorkflowSchedule))
    (db : Database) : Except ImportError Database :=
  (remoteSchedules.getD []).zipIdx.foldlM (importSchedule P uuid4 workflowId) db

def updateSchedules (uuid4 : ℕ → Uuid) (workflowId : Uuid) (remoteSchedules : Option (List RemoteWorkflowSchedule))
    (db : Database) : Except ImportError Database :=
  let existing := (db.schedulesOf workflowId).map Schedule.id
  createSchedules P uuid4 workflowId remoteSchedules (existing.foldl Database.deleteSchedule db)

/-- `_update_webhook` of `workflow.webhook`, whose attributes are asked for also where it is `None`. -/
def updateWebhook (workflowId : Uuid) (remoteWebhook : Option RemoteWebhook) (db : Database) :
    Except ImportError Database :=
  match remoteWebhook with
  | none => .ok db
  | some remote =>
    if db.webhooks.any (·.workflowId = workflowId) then
      .ok {db with webhooks := db.webhooks.map fun webhook =>
        if webhook.workflowId = workflowId then {webhook with methods := remote.methods, status := remote.status}
        else webhook}
    else .error .attributeError

def liftError {ε α : Type} (f : ε → ImportError) : Except ε α → Except ImportError α
  | .ok a => .ok a
  | .error e => .error (f e)

/-- `_ensure_folder_exists` of a path that is not empty, with the id of the folder. -/
def ensureFolder (uuid4 : Text → Uuid) (folderPath : Option Text) (db : Database) :
    Except ImportError (Option Uuid × Database) :=
  match folderPath with
  | none | some [] => .ok (none,db)
  | some path => do
    let space ← liftError .folder (ensureFolderExists uuid4 path db.space)
    .ok ((space.getFolderByPath path).map Folder.id,{db with space := space})

/-- The fifth step of `_update_existing_workflow`. -/
def updateFolderOf (uuid4 : Text → Uuid) (workflowId : Uuid) (folderPath : Option Text) (db : Database) :
    Except ImportError Database :=
  match folderPath with
  | none => .ok (db.moveWorkflow workflowId none)
  | some [] => .ok db
  | some path => do
    let (folderId,db) ← ensureFolder uuid4 (some path) db
    .ok (db.moveWorkflow workflowId folderId)

def updateExistingWorkflow (draws : Draws) (remote : RemoteWorkflowDefinition) (db : Database) :
    Except ImportError Database := do
  let version := db.latestVersion remote.id+1
  let db := db.createWorkflowDefinition remote.id remote.definition remote.workflowAlias
  if db.aliasTaken remote.id remote.workflowAlias then .error .integrityError
  else
    let actions ← liftError .management
      (createActionsFromDsl P.toPackages draws.action remote.id remote.definition.toDSLInput)
    let db := db.updateRecord remote.id fun w =>
      {w with
        version := some version
        workflowAlias := remote.workflowAlias
        row := {w.row with
          title := remote.definition.title
          description := remote.definition.description
          actions := actions}}
    let db ← updateFolderOf draws.folder remote.id remote.folderPath db
    let db ← updateSchedules P draws.schedule remote.id remote.schedules db
    let db ← updateWebhook remote.id remote.webhook db
    updateTags draws.tag remote.id remote.tags db

/-- `create_db_workflow_from_dsl` with the folder: the row, its webhook and its actions. An alias that is empty is
none. -/
def insertWorkflow (draws : Draws) (remote : RemoteWorkflowDefinition) (folderId : Option Uuid) (db : Database) :
    Except ImportError Database := do
  if !P.resolvesLock (remote.definition.actions.map Management.ActionStatement.action) then .error .lockError
  else
    let row ← liftError .management
      (createDbWorkflowFromDsl P.toPackages draws.action remote.id remote.definition.toDSLInput)
    let workflowAlias := remote.workflowAlias.filter (· ≠ "")
    if remote.id ∈ db.elsewhere ∨ db.aliasTaken remote.id workflowAlias then .error .integrityError
    else
      .ok {db with
        workflows := db.workflows ++ [⟨row,workflowAlias,none⟩]
        space := {db.space with workflows := db.space.workflows ++ [⟨remote.id,folderId⟩]}
        webhooks := db.webhooks ++ [⟨remote.id,["POST"],.offline⟩]}

def createNewWorkflow (draws : Draws) (remote : RemoteWorkflowDefinition) (db : Database) :
    Except ImportError Database := do
  let (folderId,db) ← ensureFolder draws.folder remote.folderPath db
  let db ← insertWorkflow P draws remote folderId db
  let version := db.latestVersion remote.id+1
  let db := db.createWorkflowDefinition remote.id remote.definition remote.workflowAlias
  let db := db.updateRecord remote.id fun w => {w with version := some version}
  let db ← createSchedules P draws.schedule remote.id remote.schedules db
  let db ← updateWebhook remote.id remote.webhook db
  createTags draws.tag remote.id remote.tags db

def importSingleWorkflow (draws : Draws) (remote : RemoteWorkflowDefinition) (db : Database) :
    Except ImportError Database :=
  match db.getWorkflow remote.id with
  | some _ => updateExistingWorkflow P draws remote db
  | none => createNewWorkflow P draws remote db

structure PullDiagnostic where
  workflowPath : String
  workflowTitle : Option String
  errorType : String
  message : String
deriving DecidableEq

structure PullResult where
  success : Bool
  workflowsFound : ℕ
  workflowsImported : ℕ
  diagnostics : List PullDiagnostic
  message : String
deriving DecidableEq

/-- `WorkflowUUID.short`. -/
def shortId (id : Uuid) : String := String.ofList (idToShort id "wf_".toList)

/-- `get_definition_path`. -/
def definitionPath (id : Uuid) : String := "workflows/" ++ shortId id ++ "/definition.yml"

/-- `resolve_workflow_alias(alias) is not None`. -/
def aliasResolves (db : Database) (workflowAlias : String) : Bool :=
  db.definitions.any (·.workflowAlias = some workflowAlias)

/-- The diagnostics of one action in `_validate_cross_workflow_integrity`. -/
def validateAlias (db : Database) (remotes : List RemoteWorkflowDefinition) (remote : RemoteWorkflowDefinition)
    (action : Management.ActionStatement) : List PullDiagnostic :=
  if action.action ≠ "core.workflow.execute" then []
  else
    match action.args.lookup "workflow_alias" with
    | none => []
    | some (.str workflowAlias) =>
      if workflowAlias = "" ∨ workflowAlias ∈ remotes.filterMap RemoteWorkflowDefinition.workflowAlias ∨
          aliasResolves db workflowAlias then []
      else
        [⟨definitionPath remote.id,some remote.definition.title,"validation",
          s!"Unknown workflow alias {P.repr workflowAlias} referenced by action {P.repr action.ref} (core.workflow.execute)." ++
            " Alias must reference a workflow in this workspace or the import set."⟩]
    | some value =>
      if value.truthy then
        [⟨definitionPath remote.id,some remote.definition.title,"validation",
          "Error validating child workflow alias reference"⟩]
      else []

/-- `_validate_all_workflows`, of definitions that pydantic has read. -/
def validateAllWorkflows (db : Database) (remotes : List RemoteWorkflowDefinition) : List PullDiagnostic :=
  remotes.flatMap fun remote => remote.definition.actions.flatMap (validateAlias P db remotes remote)

/-- The imports of one transaction, each with what it draws. -/
def importAll (remotes : List (Draws × RemoteWorkflowDefinition)) (db : Database) : Except ImportError Database :=
  remotes.foldlM (fun db remote => importSingleWorkflow P remote.1 remote.2 db) db

def importWorkflowsAtomic (remotes : List (Draws × RemoteWorkflowDefinition)) (db : Database) : PullResult × Database :=
  if remotes = [] then (⟨true,0,0,[],"No workflows found to import"⟩,db)
  else
    let diagnostics := validateAllWorkflows P db (remotes.map Prod.snd)
    if diagnostics ≠ [] then
      (⟨false,remotes.length,0,diagnostics,
        s!"Import failed: {diagnostics.length} validation errors found"⟩,db)
    else
      match importAll P remotes db with
      | .ok imported =>
        (⟨true,remotes.length,remotes.length,[],s!"Successfully imported {remotes.length} workflows"⟩,imported)
      | .error e =>
        (⟨false,remotes.length,0,
          [⟨"",none,"transaction",s!"Transaction failed: {P.describe e}"⟩],"Import transaction failed"⟩,db)

end Imports
end Sync
end Allama
