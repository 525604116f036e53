import Mathlib.Data.List.DropRight
import Mathlib.Data.List.Nodup
import Allama.Identifiers
import Allama.LikePatterns
import Allama.ReadCommitted

/-! The folders of a workspace (`workflow/management/folders/service.py`), whose hierarchy is in the
texts of their paths. -/
namespace Allama
open LikePatterns ReadCommitted

structure Folder where
  id : Uuid
  name : Text
  path : Text
deriving DecidableEq

structure WorkflowRow where
  id : Uuid
  folderId : Option Uuid
deriving DecidableEq

/-- The rows of one workspace in the order of their surrogate ids, under the constraints of the table:
ids are unique, and so are the paths within the workspace. -/
structure Workspace where
  folders : List Folder
  workflows : List WorkflowRow
  ids_nodup : (folders.map Folder.id).Nodup
  paths_nodup : (folders.map Folder.path).Nodup

inductive FolderError
  | validation (message : String)
  | valueError (message : String)
  | integrityError
  | staleData
deriving DecidableEq

def slash : Text := ['/']

/-- `if not path.endswith("/") and path != "/": path += "/"`. -/
def withSlash (path : Text) : Text := if slash <:+ path then path else path ++ slash

def Folder.parentPath (folder : Folder) : Text :=
  if folder.path = slash then slash
  else
    let pathParts := (folder.path.rdropWhile (· = '/')).splitOn '/'
    if pathParts.length ≤ 2 then slash else slash.intercalate pathParts.dropLast ++ slash

/-- The path of a folder `name` under `parentPath`. -/
def childPath (parentPath name : Text) : Text :=
  if parentPath ≠ slash then parentPath ++ name ++ slash else slash ++ name ++ slash

namespace Workspace

def empty : Workspace := ⟨[],[],List.nodup_nil,List.nodup_nil⟩

variable (s : Workspace)

def getFolder (id : Uuid) : Option Folder := s.folders.find? (fun g => g.id = id)

def folderPathExists (path : Text) : Bool := s.folders.any (fun g => g.path = path)

def getFolderByPath (path : Text) : Option Folder :=
  s.folders.find? (fun g => g.path = withSlash path)

/-- `_get_descendants`: what the pattern of the path selects, without the path itself. -/
def getDescendants (path : Text) : List Folder :=
  s.folders.filter (fun g => likePrefix (withSlash path) g.path && decide (g.path ≠ withSlash path))

def hasChildren (path : Text) : Bool := decide (0 < (s.getDescendants path).length)

def hasWorkflows (folderId : Uuid) : Bool := s.workflows.any (fun w => w.folderId = some folderId)

end Workspace

/-- The attributes of a folder that a transaction has changed. -/
structure FolderUpdate where
  id : Uuid
  name : Option Text
  path : Option Text
deriving DecidableEq

def FolderUpdate.apply (u : FolderUpdate) (g : Folder) : Folder :=
  if g.id = u.id then {g with name := u.name.getD g.name, path := u.path.getD g.path} else g

/-- The changes from `old` to `new`. -/
def Folder.diff (old new : Folder) : FolderUpdate :=
  ⟨old.id,if new.name = old.name then none else some new.name,
    if new.path = old.path then none else some new.path⟩

def FolderUpdate.isEmpty (u : FolderUpdate) : Bool := u.name = none ∧ u.path = none

def insertFolder (folder : Folder) (s : Workspace) : Except FolderError Workspace :=
  if h : ((s.folders ++ [folder]).map Folder.id).Nodup ∧
      ((s.folders ++ [folder]).map Folder.path).Nodup then
    .ok ⟨s.folders ++ [folder],s.workflows,h.1,h.2⟩
  else .error .integrityError

theorem FolderUpdate.apply_id (u : FolderUpdate) (g : Folder) : (u.apply g).id = g.id := by
  unfold apply
  split <;> rfl

theorem map_apply_id (u : FolderUpdate) (gs : List Folder) :
    (gs.map u.apply).map Folder.id = gs.map Folder.id := by
  rw [List.map_map]
  exact List.map_congr_left fun g _ => u.apply_id g

/-- One `UPDATE`. The constraint is checked at once, and a row that is gone is an error. -/
def updateFolder (s : Workspace) (u : FolderUpdate) : Except FolderError Workspace :=
  if (s.getFolder u.id).isNone then .error .staleData
  else if h : ((s.folders.map u.apply).map Folder.path).Nodup then
    .ok ⟨s.folders.map u.apply,s.workflows,by rw [map_apply_id]; exact s.ids_nodup,h⟩
  else .error .integrityError

/-- The flush of the changed rows, in the order of the table. -/
def flushUpdates (us : List FolderUpdate) (s : Workspace) : Except FolderError Workspace :=
  let dirty := us.filter (fun u => ¬ u.isEmpty)
  if dirty.any (fun u => (s.getFolder u.id).isNone) then .error .staleData
  else (s.folders.filterMap fun g => dirty.find? (fun u => u.id = g.id)).foldlM updateFolder s

/-- The `DELETE`s; the workflows of the folders move to the root. -/
def deleteFolders (ids : List Uuid) (s : Workspace) : Except FolderError Workspace :=
  .ok
    { folders := s.folders.filter (fun g => g.id ∉ ids)
      workflows := s.workflows.map fun w =>
        if w.folderId.any (fun id => id ∈ ids) then {w with folderId := none} else w
      ids_nodup := (List.filter_sublist.map Folder.id).nodup s.ids_nodup
      paths_nodup := (List.filter_sublist.map Folder.path).nodup s.paths_nodup }

abbrev FolderTxn := Txn Workspace FolderError

def nameWithSlash : FolderError := .validation "Folder name cannot contain slashes"

def folderNotFound (id : Uuid) : FolderError := .validation ("Folder " ++ id.str ++ " not found")

def folderExists (path : Text) : FolderError :=
  .validation ("Folder " ++ String.ofList path ++ " already exists")

/-- The end of `create_folder`, under an existing parent path. -/
def createUnder (id : Uuid) (name parentPath : Text) : FolderTxn :=
  let fullPath := childPath (withSlash parentPath) name
  .check (·.folderPathExists fullPath) fun pathExists =>
    if pathExists then .fail (folderExists fullPath) else .write (insertFolder ⟨id,name,fullPath⟩)

/-- `create_folder`; `id` is drawn for the new row. -/
def createFolder (id : Uuid) (name parentPath : Text) : FolderTxn :=
  if '/' ∈ name then .fail nameWithSlash
  else if parentPath ≠ slash then
    .read (·.folderPathExists parentPath) fun parentExists =>
      if parentExists then createUnder id name parentPath
      else .fail (.validation ("Parent path " ++ String.ofList parentPath ++ " not found"))
  else createUnder id name parentPath

/-- `path.replace(old_path, new_path, 1)` on one of the descendants. -/
def Folder.rebase (g : Folder) (oldPath newPath : Text) : Folder :=
  {g with path := replaceFirst oldPath newPath g.path}

/-- The rows that `rename_folder` and `move_folder` change: the folder, then the descendants. The
session keeps one object for each row, so a descendant that was loaded before is that object. -/
def relocate (folder moved : Folder) (loaded descendants : List Folder) : List FolderUpdate :=
  let objects := descendants.map fun d => (loaded.find? (fun g => g.id = d.id)).getD d
  let self := if objects.any (fun d => d.id = folder.id) then moved.rebase folder.path moved.path
    else moved
  folder.diff self :: (objects.filter (fun d => d.id ≠ folder.id)).map fun d =>
    d.diff (d.rebase folder.path moved.path)

/-- `rename_folder`. Whether the new path exists is asked, and not used. -/
def renameFolder (id : Uuid) (newName : Text) : FolderTxn :=
  if '/' ∈ newName then .fail nameWithSlash
  else .read (·.getFolder id) fun found =>
    match found with
    | none => .fail (folderNotFound id)
    | some folder =>
      let moved := {folder with name := newName, path := childPath folder.parentPath newName}
      let update : FolderTxn := .read (·.getDescendants folder.path) fun descendants =>
        .write (flushUpdates (relocate folder moved [] descendants))
      if moved.path ≠ folder.path then .check (·.folderPathExists moved.path) fun _ => update
      else update

/-- The end of `move_folder`, once the new parent is known. -/
def moveUnder (folder : Folder) (newParentPath : Text) (loaded : List Folder) : FolderTxn :=
  let moved := {folder with path := childPath newParentPath folder.name}
  let update : FolderTxn := .read (·.getDescendants folder.path) fun descendants =>
    .write (flushUpdates (relocate folder moved loaded descendants))
  if moved.path ≠ folder.path then
    .check (·.folderPathExists moved.path) fun pathExists =>
      if pathExists then .fail (folderExists moved.path) else update
  else update

def moveFolder (id : Uuid) (newParentId : Option Uuid) : FolderTxn :=
  .read (·.getFolder id) fun found =>
    match found with
    | none => .fail (folderNotFound id)
    | some folder =>
      match newParentId with
      | none => moveUnder folder slash []
      | some parentId => .read (·.getFolder parentId) fun foundParent =>
        match foundParent with
        | none => .fail (.validation ("Parent folder " ++ parentId.str ++ " not found"))
        | some newParent =>
          if folder.path = newParent.path then
            .fail (.validation "Cannot make a folder its own child")
          else if folder.path.isPrefixOf newParent.path then
            .fail (.validation "Cannot create cyclic folder structure")
          else moveUnder folder newParent.path [newParent]

def deleteFolder (id : Uuid) (recursive : Bool) : FolderTxn :=
  .read (·.getFolder id) fun found =>
    match found with
    | none => .fail (folderNotFound id)
    | some folder =>
      if folder.path = slash then .fail (.validation "Cannot delete root folder")
      else if recursive then
        .read (·.getDescendants folder.path) fun descendants =>
          .write (deleteFolders (folder.id :: descendants.map Folder.id))
      else
        .read (·.hasChildren folder.path) fun hasChildren =>
        .read (·.hasWorkflows id) fun hasWorkflows =>
          if hasChildren || hasWorkflows then
            .fail (.validation
              "Folder is not empty. Please move or delete its contents first.")
          else .write (deleteFolders [folder.id])

/-- The loop of `_ensure_folder_exists` over the segments of a path; `uuid4` draws the ids. -/
def ensureSegments (uuid4 : Text → Uuid) (currentPath : Text) :
    List Text → Workspace → Except FolderError Workspace
  | [], s => .ok s
  | segment :: segments, s =>
    if segment = [] then ensureSegments uuid4 currentPath segments s
    else
      let path := currentPath ++ segment ++ slash
      match s.getFolderByPath path with
      | some _ => ensureSegments uuid4 path segments s
      | none => do
        let s ← (createFolder (uuid4 path) segment currentPath).exec s
        ensureSegments uuid4 path segments s

/-- `folder_path.strip("/").split("/")`. -/
def pathSegments (folderPath : Text) : List Text :=
  ((folderPath.dropWhile (· = '/')).rdropWhile (· = '/')).splitOn '/'

/-- `_ensure_folder_exists`, whose caller rolls it back when it fails. -/
def ensureFolderExists (uuid4 : Text → Uuid) (folderPath : Text) (s : Workspace) :
    Except FolderError Workspace :=
  if folderPath = [] ∨ folderPath = slash then .error (.valueError "Invalid folder path")
  else do
    let s ← ensureSegments uuid4 slash (pathSegments folderPath) s
    match s.getFolderByPath folderPath with
    | none => .error (.valueError
        ("Failed to create or find folder at path: " ++ String.ofList folderPath))
    | some _ => return s

/-- The operations on folders that are each one transaction. -/
inductive FolderOperation
  | create (id : Uuid) (name parentPath : Text)
  | rename (id : Uuid) (newName : Text)
  | move (id : Uuid) (newParentId : Option Uuid)
  | delete (id : Uuid) (recursive : Bool)

def FolderOperation.txn : FolderOperation → FolderTxn
  | .create id name parentPath => createFolder id name parentPath
  | .rename id newName => renameFolder id newName
  | .move id newParentId => moveFolder id newParentId
  | .delete id recursive => deleteFolder id recursive

end Allama
