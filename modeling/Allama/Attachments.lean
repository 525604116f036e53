import Allama.IdRows
import Allama.RecordFields

/-! Attachments of cases. A content is one file of a workspace, whatever the cases that it is attached to, and one object
of the bucket, whatever the workspaces. -/
namespace Allama
namespace Attachments
open IdRows RecordFields

abbrev Bytes := List UInt8

/-- A row of the file table. -/
structure File where
  id : Nat
  workspace_id : String
  sha256 : String
  name : String
  content_type : String
  size : Nat
  creator_id : Option String
  deleted_at : Option Nat
deriving DecidableEq, Repr

def File.revive (size : Nat) (file : File) : File := { file with size := size, deleted_at := none }

def File.softDelete (now : Nat) (file : File) : File := { file with deleted_at := some now }

@[simp] theorem id_revive (size : Nat) (file : File) : (file.revive size).id = file.id := rfl

@[simp] theorem id_softDelete (now : Nat) (file : File) : (file.softDelete now).id = file.id := rfl

/-- A row of the table that links cases and files. -/
structure CaseAttachment where
  id : Nat
  case_id : String
  file_id : Nat
  created_at : Nat
deriving DecidableEq, Repr

structure CaseAttachmentCreate where
  file_name : String
  content_type : String
  content : Bytes
deriving DecidableEq, Repr

/-- The committed tables, the ids that they draw from, and the objects of the attachments bucket. -/
structure State where
  files : List File
  attachments : List CaseAttachment
  next_id : Nat
  blobs : List (String × Bytes)
deriving DecidableEq, Repr

def State.empty : State := ⟨[],[],0,[]⟩

inductive RoleType
  | user
  | service
deriving DecidableEq, Repr

inductive AccessLevel
  | basic
  | admin
deriving DecidableEq, Repr

structure Role where
  type : RoleType
  user_id : Option String
  access_level : AccessLevel
deriving DecidableEq, Repr

inductive AttachmentError
  | fileSize
  | maxAttachmentsExceeded (current_count max_count : Nat)
  | storageLimitExceeded (current_size new_file_size max_size : Nat)
  | invalid (message : String)
  | uploadFailed
  | notFound (message : String)
  | unauthorized (message : String)
  | integrity
  | transaction
deriving DecidableEq, Repr

/-- The limits of the configuration. -/
structure Config where
  max_attachment_size_bytes : Nat
  max_attachments_per_case : Nat
  max_case_storage_bytes : Nat
deriving DecidableEq, Repr

/-- What an upload does: an object can have been written even if the upload raises. -/
inductive Upload
  | stored
  | raised (written : Bool)
deriving DecidableEq, Repr

def storageKeyFor (sha256 : String) : String := s!"attachments/{sha256}"

section Reads

def activeFile (st : State) (file_id : Nat) : Option File :=
  (rowAt File.id file_id st.files).filter fun file => file.deleted_at.isNone

def activeAttachments (st : State) (case_id : String) : List CaseAttachment :=
  st.attachments.filter fun attachment => attachment.case_id = case_id ∧ (activeFile st attachment.file_id).isSome

def listAttachments (st : State) (case_id : String) : List CaseAttachment :=
  (activeAttachments st case_id).mergeSort fun a b => b.created_at ≤ a.created_at

def getAttachment (st : State) (case_id : String) (attachment_id : Nat) : Option CaseAttachment :=
  (activeAttachments st case_id).find? fun attachment => attachment.id = attachment_id

/-- The attachment and its file. -/
def requireAttachment (st : State) (case_id : String) (attachment_id : Nat) :
    Except AttachmentError (CaseAttachment × File) :=
  match (getAttachment st case_id attachment_id).bind fun attachment =>
      (activeFile st attachment.file_id).map fun file => (attachment,file) with
  | some row => .ok row
  | none => .error (.notFound s!"Attachment {attachment_id} not found")

def getTotalStorageUsed (st : State) (case_id : String) : Nat :=
  ((activeAttachments st case_id).map fun attachment => ((activeFile st attachment.file_id).map File.size).getD 0).sum

def downloadAttachment (sha256 : Bytes → String) (st : State) (case_id : String) (attachment_id : Nat) :
    Except AttachmentError (Bytes × String × String) := do
  let (_,file) ← requireAttachment st case_id attachment_id
  match st.blobs.lookup (storageKeyFor file.sha256) with
  | none => .error (.notFound "Attachment file not found in storage")
  | some content =>
    if sha256 content = file.sha256 then .ok (content,file.name,file.content_type) else .error .integrity

end Reads

section Writes
variable (config : Config) (sha256 : Bytes → String) (workspaceOf : String → String)

def assertCaseLimits (st : State) (case_id : String) (new_size : Nat) : Except AttachmentError Unit :=
  let current_attachment_count := (activeAttachments st case_id).length
  if config.max_attachments_per_case ≤ current_attachment_count then
    .error (.maxAttachmentsExceeded current_attachment_count config.max_attachments_per_case)
  else
    let current_storage := getTotalStorageUsed st case_id
    if config.max_case_storage_bytes < current_storage + new_size then
      .error (.storageLimitExceeded current_storage new_size config.max_case_storage_bytes)
    else .ok ()

def finish {A : Type} (before staged : State) (commits : Bool) (result : A) : Except AttachmentError A × State :=
  if commits then (.ok result,staged) else (.error .transaction,{ before with blobs := staged.blobs })

def writeBlob (st : State) (key : String) (content : Bytes) : State := { st with blobs := put key content st.blobs }

/-- The rows once the file is staged: the attachment is returned as it is, or written with its event. -/
def linkFile (before staged : State) (case_id : String) (file : File) (restored commits : Bool) (now : Nat) :
    Except AttachmentError Nat × State :=
  match staged.attachments.find? fun attachment => attachment.case_id = case_id ∧ attachment.file_id = file.id with
  | some attachment =>
    -- the early return commits nothing
    if restored = false then (.ok attachment.id,before) else finish before staged commits attachment.id
  | none =>
    let attachment : CaseAttachment :=
      { id := staged.next_id, case_id := case_id, file_id := file.id, created_at := now }
    finish before
      { staged with attachments := staged.attachments ++ [attachment], next_id := staged.next_id + 1 }
      commits attachment.id

/-- An upload that raises rolls the transaction back. -/
def uploadTo (before staged : State) (key : String) (content : Bytes) (upload : Upload)
    (continue_ : State → Except AttachmentError Nat × State) : Except AttachmentError Nat × State :=
  match upload with
  | .stored => continue_ (writeBlob staged key content)
  | .raised written => (.error .uploadFailed,if written then writeBlob before key content else before)

/-- The validated name and type of an upload, by the settings of the workspace. -/
abbrev Validator := String → CaseAttachmentCreate → Except String (String × String)

variable (validateFile : Validator)

/-- Whether the checks before the tables are read let a content pass. -/
def checkUpload (st : State) (case_id : String) (params : CaseAttachmentCreate) :
    Except AttachmentError (String × String) :=
  let actual_size := params.content.length
  if config.max_attachment_size_bytes < actual_size then .error .fileSize
  else
    match assertCaseLimits config st case_id actual_size with
    | .error e => .error e
    | .ok () =>
      match validateFile (workspaceOf case_id) params with
      | .error message => .error (.invalid message)
      | .ok validated => .ok validated

def fileOf (st : State) (workspace_id sha : String) : Option File :=
  st.files.find? fun file => file.sha256 = sha ∧ file.workspace_id = workspace_id

def createAttachment (st : State) (role : Role) (case_id : String) (params : CaseAttachmentCreate) (upload : Upload)
    (commits : Bool) (now : Nat) : Except AttachmentError Nat × State :=
  match checkUpload config workspaceOf validateFile st case_id params with
  | .error e => (.error e,st)
  | .ok (name,content_type) =>
    let actual_size := params.content.length
    let sha := sha256 params.content
    match fileOf st (workspaceOf case_id) sha with
    | none =>
      let file : File :=
        { id := st.next_id, workspace_id := workspaceOf case_id, sha256 := sha, name := name
          content_type := content_type, size := actual_size
          creator_id := if role.type = .user then role.user_id else none, deleted_at := none }
      let staged : State := { st with files := st.files ++ [file], next_id := st.next_id + 1 }
      uploadTo st staged (storageKeyFor sha) params.content upload fun staged =>
        linkFile st staged case_id file false commits now
    | some file =>
      let staged : State := { st with files := changeAt File.id file.id (File.revive actual_size) st.files }
      if file.deleted_at.isSome then
        uploadTo st staged (storageKeyFor sha) params.content upload fun staged =>
          linkFile st staged case_id (file.revive actual_size) true commits now
      else linkFile st staged case_id (file.revive actual_size) false commits now

def deniedTo (role : Role) (file : File) : Prop :=
  role.type = .user ∧ file.creator_id ≠ role.user_id ∧ role.access_level ≠ .admin

instance (role : Role) (file : File) : Decidable (deniedTo role file) :=
  inferInstanceAs (Decidable (_ ∧ _ ∧ _))

/-- The tables and the bucket once a file is deleted: a deletion of the object that raises is logged. -/
def stageDeletion (st : State) (file : File) (blobDeleted : Bool) (now : Nat) : State :=
  { st with
    files := changeAt File.id file.id (File.softDelete now) st.files
    blobs := if blobDeleted then st.blobs.filter fun blob => blob.1 ≠ storageKeyFor file.sha256 else st.blobs }

def deleteAttachment (st : State) (role : Role) (case_id : String) (attachment_id : Nat) (blobDeleted commits : Bool)
    (now : Nat) : Except AttachmentError Unit × State :=
  match requireAttachment st case_id attachment_id with
  | .error e => (.error e,st)
  | .ok (_,file) =>
    if deniedTo role file then (.error (.unauthorized "You don't have permission to delete this attachment"),st)
    else finish st (stageDeletion st file blobDeleted now) commits ()

/-- A call of the service of the workspace of a case, with what the bucket and the database answer. -/
inductive Call
  | create (role : Role) (case_id : String) (params : CaseAttachmentCreate) (upload : Upload) (commits : Bool) (now : Nat)
  | delete (role : Role) (case_id : String) (attachment_id : Nat) (blobDeleted commits : Bool) (now : Nat)
deriving DecidableEq, Repr

def call (st : State) : Call → State
  | .create role case_id params upload commits now =>
    (createAttachment config sha256 workspaceOf validateFile st role case_id params upload commits now).2
  | .delete role case_id attachment_id blobDeleted commits now =>
    (deleteAttachment st role case_id attachment_id blobDeleted commits now).2

/-- The service as a transition system. -/
def next (st : State) (c : Call) : Option State := some (call config sha256 workspaceOf validateFile st c)

end Writes

section Samples

/-- The digests of two contents of one byte. -/
def sampleDigest : Bytes → String
  | [97] => "ca978112ca1bbdcafac231b39a23dc4da786eff8147c4e72b9807785afee48bb"
  | [98] => "3e23e8160039594a33894f6564e1b1348bbd7a0088d42c4acb73eeaed59c009d"
  | content => String.join (content.map fun byte => toString byte)

def sampleUpload (content : Bytes) : CaseAttachmentCreate := ⟨"note.txt","text/plain",content⟩

def sampleService : Role := ⟨.service,none,.admin⟩

/-- A validator that lets every upload pass under its name and type. -/
def sampleValidator : Validator := fun _ params => .ok (params.file_name,params.content_type)

end Samples
end Attachments
end Allama
