import Allama.Attachments

/-! What a call of the attachments service can do to the tables and the bucket. -/
namespace Allama
namespace Attachments
open IdRows RecordFields
section Steps
variable (config : Config) (sha256 : Bytes → String) (workspaceOf : String → String) (validateFile : Validator)

/-- The file row of an upload: added, restored with its object, or found as it is. -/
inductive Staging (st : State) (workspace_id sha : String) (content : Bytes) (upload : Upload) : State → File → Bool → Prop
  | added (file : File) (hnone : fileOf st workspace_id sha = none) (hid : file.id = st.next_id)
      (hworkspace : file.workspace_id = workspace_id) (hsha : file.sha256 = sha) (hsize : file.size = content.length)
      (hactive : file.deleted_at = none) (hupload : upload = .stored) :
      Staging st workspace_id sha content upload
        (writeBlob { st with files := st.files ++ [file], next_id := st.next_id + 1 } (storageKeyFor sha) content) file false
  | restored (file : File) (hfile : fileOf st workspace_id sha = some file) (hdeleted : file.deleted_at.isSome)
      (hupload : upload = .stored) :
      Staging st workspace_id sha content upload
        (writeBlob { st with files := changeAt File.id file.id (File.revive content.length) st.files } (storageKeyFor sha)
          content)
        (file.revive content.length) true
  | found (file : File) (hfile : fileOf st workspace_id sha = some file) (hactive : file.deleted_at = none) :
      Staging st workspace_id sha content upload
        { st with files := changeAt File.id file.id (File.revive content.length) st.files } (file.revive content.length) false

/-- The attachment of a staged file: returned as it is, restored with its file, or added. -/
inductive Linking (st staged : State) (case_id : String) (file : File) (commits : Bool) (now : Nat) :
    Bool → Nat → State → Prop
  | unchanged (attachment : CaseAttachment) (hmem : attachment ∈ staged.attachments)
      (hcase : attachment.case_id = case_id) (hfile : attachment.file_id = file.id) :
      Linking st staged case_id file commits now false attachment.id st
  | restored (attachment : CaseAttachment) (hmem : attachment ∈ staged.attachments)
      (hcase : attachment.case_id = case_id) (hfile : attachment.file_id = file.id) (hcommits : commits = true) :
      Linking st staged case_id file commits now true attachment.id staged
  | added (restored : Bool) (hnone : ∀ attachment ∈ staged.attachments, attachment.case_id = case_id →
      attachment.file_id ≠ file.id) (hcommits : commits = true) :
      Linking st staged case_id file commits now restored staged.next_id
        { staged with
          attachments := staged.attachments ++ [⟨staged.next_id,case_id,file.id,now⟩], next_id := staged.next_id + 1 }

def Failed {A : Type} (st : State) (sha : String) (content : Bytes) (result : Except AttachmentError A × State) : Prop :=
  (∃ e, result.1 = .error e) ∧ (result.2 = st ∨ result.2 = writeBlob st (storageKeyFor sha) content)

variable {st : State} {role : Role} {case_id : String} {params : CaseAttachmentCreate} {upload : Upload} {commits : Bool}
  {now : Nat}

theorem linkFile_cases {staged : State} {file : File} {restored : Bool} {sha : String} {content : Bytes}
    (hblobs : staged.blobs = st.blobs ∨ staged.blobs = put (storageKeyFor sha) content st.blobs) :
    Failed st sha content (linkFile st staged case_id file restored commits now) ∨
      ∃ id st', linkFile st staged case_id file restored commits now = (.ok id,st') ∧
        Linking st staged case_id file commits now restored id st' := by
  -- a transaction that does not commit takes back the rows, but not the object
  have hfailed : ∀ t : State, t.blobs = staged.blobs →
      ({ st with blobs := t.blobs } : State) = st ∨
        ({ st with blobs := t.blobs } : State) = writeBlob st (storageKeyFor sha) content := by
    intro t ht
    rw [ht]
    rcases hblobs with h | h
    · exact .inl (by rw [h])
    · exact .inr (by rw [h]; rfl)
  unfold linkFile
  split
  · rename_i attachment hfind
    have hmem := List.mem_of_find?_eq_some hfind
    have hprop := List.find?_some hfind
    simp only [decide_eq_true_eq] at hprop
    cases restored with
    | false => exact .inr ⟨attachment.id,st,rfl,.unchanged attachment hmem hprop.1 hprop.2⟩
    | true =>
      cases commits with
      | false => exact .inl ⟨⟨_,rfl⟩,hfailed staged rfl⟩
      | true => exact .inr ⟨attachment.id,staged,rfl,.restored attachment hmem hprop.1 hprop.2 rfl⟩
  · rename_i hnone
    have hfree : ∀ attachment ∈ staged.attachments, attachment.case_id = case_id → attachment.file_id ≠ file.id := by
      intro attachment hmem hcase hfile
      exact List.find?_eq_none.mp hnone attachment hmem (decide_eq_true ⟨hcase,hfile⟩)
    cases commits with
    | false => exact .inl ⟨⟨_,rfl⟩,hfailed _ rfl⟩
    | true => exact .inr ⟨staged.next_id,_,rfl,.added restored hfree rfl⟩

/-- A create fails, or stages the file of its content and links it to the case. -/
theorem createAttachment_cases :
    Failed st (sha256 params.content) params.content
        (createAttachment config sha256 workspaceOf validateFile st role case_id params upload commits now) ∨
      ∃ validated staged file restored id st', checkUpload config workspaceOf validateFile st case_id params = .ok validated ∧
        Staging st (workspaceOf case_id) (sha256 params.content) params.content upload staged file restored ∧
        Linking st staged case_id file commits now restored id st' ∧
        createAttachment config sha256 workspaceOf validateFile st role case_id params upload commits now = (.ok id,st') := by
  unfold createAttachment
  cases hcheck : checkUpload config workspaceOf validateFile st case_id params with
  | error e => exact .inl ⟨⟨e,rfl⟩,.inl rfl⟩
  | ok validated =>
    -- an upload that raises may have written its object
    have hraised : ∀ written : Bool, Failed (A := Nat) st (sha256 params.content) params.content
        (.error .uploadFailed,
          if written then writeBlob st (storageKeyFor (sha256 params.content)) params.content else st) := by
      intro written
      refine ⟨⟨_,rfl⟩,?_⟩
      cases written with
      | false => exact .inl rfl
      | true => exact .inr rfl
    obtain ⟨name,content_type⟩ := validated
    dsimp only
    cases hfile : fileOf st (workspaceOf case_id) (sha256 params.content) with
    | none =>
      dsimp only
      cases upload with
      | raised written => exact .inl (hraised written)
      | stored =>
        refine Or.imp (fun hfailed => hfailed) ?_ (linkFile_cases (.inr rfl))
        rintro ⟨id,st',heq,hlink⟩
        exact ⟨_,_,_,_,id,st',rfl,.added _ hfile rfl rfl rfl rfl rfl rfl,hlink,heq⟩
    | some file =>
      dsimp only
      split
      · rename_i hdeleted
        cases upload with
        | raised written => exact .inl (hraised written)
        | stored =>
          refine Or.imp (fun hfailed => hfailed) ?_ (linkFile_cases (.inr rfl))
          rintro ⟨id,st',heq,hlink⟩
          exact ⟨_,_,_,_,id,st',rfl,.restored file hfile hdeleted rfl,hlink,heq⟩
      · rename_i hdeleted
        have hactive : file.deleted_at = none := by simpa using hdeleted
        refine Or.imp (fun hfailed => hfailed) ?_ (linkFile_cases (.inl rfl))
        rintro ⟨id,st',heq,hlink⟩
        exact ⟨_,_,_,_,id,st',rfl,.found file hfile hactive,hlink,heq⟩

theorem deleteAttachment_cases (st : State) (role : Role) (case_id : String) (attachment_id : Nat)
    (blobDeleted commits : Bool) (now : Nat) :
    (∃ e, deleteAttachment st role case_id attachment_id blobDeleted commits now = (.error e,st)) ∨
      ∃ attachment file, requireAttachment st case_id attachment_id = .ok (attachment,file) ∧ ¬ deniedTo role file ∧
        deleteAttachment st role case_id attachment_id blobDeleted commits now =
          finish st (stageDeletion st file blobDeleted now) commits () := by
  unfold deleteAttachment
  cases hrow : requireAttachment st case_id attachment_id with
  | error e => exact .inl ⟨e,rfl⟩
  | ok row =>
    obtain ⟨attachment,file⟩ := row
    dsimp only
    split
    · exact .inl ⟨_,rfl⟩
    · rename_i hallowed
      exact .inr ⟨attachment,file,rfl,hallowed,rfl⟩

end Steps

section WellFormed

/-- The keys of the tables, and the references between them. -/
structure WellFormed (st : State) : Prop where
  fileIds : (st.files.map File.id).Nodup
  filesBelow : ∀ id ∈ st.files.map File.id, id < st.next_id
  attachmentIds : (st.attachments.map CaseAttachment.id).Nodup
  attachmentsBelow : ∀ id ∈ st.attachments.map CaseAttachment.id, id < st.next_id
  references : ∀ attachment ∈ st.attachments, attachment.file_id ∈ st.files.map File.id
  links : (st.attachments.map fun attachment => (attachment.case_id,attachment.file_id)).Nodup

theorem wellFormed_empty : WellFormed State.empty :=
  ⟨List.nodup_nil,fun _ h => (List.not_mem_nil h).elim,List.nodup_nil,fun _ h => (List.not_mem_nil h).elim,
    fun _ h => (List.not_mem_nil h).elim,List.nodup_nil⟩

variable {st staged st' : State} {workspace_id sha case_id : String} {content : Bytes} {upload : Upload} {file : File}
  {restored commits : Bool} {now id : Nat}

theorem fileOf_mem (h : fileOf st workspace_id sha = some file) :
    file ∈ st.files ∧ file.sha256 = sha ∧ file.workspace_id = workspace_id := by
  have hprop := List.find?_some h
  simp only [decide_eq_true_eq] at hprop
  exact ⟨List.mem_of_find?_eq_some h,hprop⟩

theorem WellFormed.changeFile (h : WellFormed st) (k : Nat) {f : File → File} (hf : ∀ row, (f row).id = row.id)
    (blobs : List (String × Bytes)) :
    WellFormed { st with files := changeAt File.id k f st.files, blobs := blobs } where
  fileIds := by
    rw [ids_changeAt k hf]
    exact h.fileIds
  filesBelow := by
    rw [ids_changeAt k hf]
    exact h.filesBelow
  attachmentIds := h.attachmentIds
  attachmentsBelow := h.attachmentsBelow
  references := by
    rw [ids_changeAt k hf]
    exact h.references
  links := h.links

section
variable (hstage : Staging st workspace_id sha content upload staged file restored)
include hstage

theorem Staging.wellFormed (h : WellFormed st) : WellFormed staged := by
  cases hstage with
  | added file hnone hid =>
    have hfresh : file.id ∉ st.files.map File.id := by
      intro hmem
      have hlt := h.filesBelow _ hmem
      omega
    constructor
    · exact nodup_append h.fileIds hfresh
    · intro i hi
      change i ∈ (st.files ++ [file]).map File.id at hi
      rw [List.map_append, List.mem_append] at hi
      change i < st.next_id + 1
      rcases hi with hi | hi
      · have hlt := h.filesBelow i hi
        omega
      · have heq : i = file.id := by simpa using hi
        omega
    · exact h.attachmentIds
    · intro i hi
      have hlt := h.attachmentsBelow i hi
      change i < st.next_id + 1
      omega
    · intro attachment hmem
      change attachment.file_id ∈ (st.files ++ [file]).map File.id
      rw [List.map_append]
      exact List.mem_append_left _ (h.references attachment hmem)
    · exact h.links
  | restored row => exact h.changeFile row.id (id_revive _) _
  | found row => exact h.changeFile row.id (id_revive _) _

theorem Staging.active (h : WellFormed st) :
    activeFile staged file.id = some file ∧ ∀ i, i ≠ file.id → activeFile staged i = activeFile st i := by
  have hchanged : ∀ (row : File) (t : State), fileOf st workspace_id sha = some row →
      t.files = changeAt File.id row.id (File.revive content.length) st.files →
      activeFile t row.id = some (row.revive content.length) ∧
        ∀ i, i ≠ row.id → activeFile t i = activeFile st i := by
    intro row t hrow hfiles
    have hat := (rowAt_eq_some h.fileIds).mpr ⟨(fileOf_mem hrow).1,rfl⟩
    unfold activeFile
    rw [hfiles]
    constructor
    · rw [rowAt_changeAt row.id (id_revive _), if_pos rfl, hat]
      rfl
    · intro i hi
      rw [rowAt_changeAt row.id (id_revive _), if_neg hi]
  cases hstage with
  | added file hnone hid hworkspace hsha hsize hactive =>
    have hfresh : file.id ∉ st.files.map File.id := by
      intro hmem
      have hlt := h.filesBelow _ hmem
      omega
    unfold activeFile
    constructor
    · change (rowAt File.id file.id (st.files ++ [file])).filter _ = some file
      rw [rowAt_append file hfresh, if_pos rfl]
      simp [hactive]
    · intro i hi
      change (rowAt File.id i (st.files ++ [file])).filter _ = _
      rw [rowAt_append file hfresh, if_neg hi]
  | restored row hrow => exact hchanged row _ hrow rfl
  | found row hrow => exact hchanged row _ hrow rfl

theorem Staging.attachments : staged.attachments = st.attachments := by
  cases hstage <;> rfl

theorem Staging.size : file.size = content.length := by
  cases hstage with
  | added file hnone hid hworkspace hsha hsize => exact hsize
  | restored row => rfl
  | found row => rfl

theorem Staging.mem (h : WellFormed st) : file.id ∈ staged.files.map File.id := by
  have hrow := (Option.filter_eq_some_iff.mp (hstage.active h).1).1
  exact List.mem_map_of_mem (rowAt_mem hrow).1

end

theorem Linking.wellFormed (hlink : Linking st staged case_id file commits now restored id st') (h : WellFormed st)
    (hstaged : WellFormed staged) (hmem : file.id ∈ staged.files.map File.id) : WellFormed st' := by
  cases hlink with
  | unchanged => exact h
  | restored => exact hstaged
  | added _ hnone =>
    have hfresh : staged.next_id ∉ staged.attachments.map CaseAttachment.id := fun hold =>
      Nat.lt_irrefl _ (hstaged.attachmentsBelow _ hold)
    constructor
    · exact hstaged.fileIds
    · intro i hi
      exact Nat.lt_succ_of_lt (hstaged.filesBelow i hi)
    · exact nodup_append hstaged.attachmentIds hfresh
    · intro i hi
      rw [List.map_append, List.mem_append] at hi
      rcases hi with hi | hi
      · exact Nat.lt_succ_of_lt (hstaged.attachmentsBelow i hi)
      · have heq : i = staged.next_id := by simpa using hi
        exact heq ▸ Nat.lt_succ_self _
    · intro attachment hattachment
      rcases List.mem_append.mp hattachment with hold | hnew
      · exact hstaged.references attachment hold
      · rw [List.mem_singleton.mp hnew]
        exact hmem
    · apply nodup_append hstaged.links
      intro hold
      obtain ⟨attachment,hattachment,heq⟩ := List.mem_map.mp hold
      obtain ⟨hcase,hfile⟩ := Prod.mk.inj heq
      exact hnone attachment hattachment hcase hfile

variable {config : Config} {sha256 : Bytes → String} {workspaceOf : String → String} {validateFile : Validator}

theorem wellFormed_call (h : WellFormed st) (c : Call) : WellFormed (call config sha256 workspaceOf validateFile st c) := by
  cases c with
  | create role case_id params upload commits now =>
    change WellFormed (createAttachment config sha256 workspaceOf validateFile st role case_id params upload commits now).2
    rcases createAttachment_cases config sha256 workspaceOf validateFile with
      ⟨-,hst | hst⟩ | ⟨validated,staged,file,restored,id,st',-,hstage,hlink,heq⟩
    · rw [hst]
      exact h
    · rw [hst]
      exact ⟨h.fileIds,h.filesBelow,h.attachmentIds,h.attachmentsBelow,h.references,h.links⟩
    · rw [heq]
      exact hlink.wellFormed h (hstage.wellFormed h) (hstage.mem h)
  | delete role case_id attachment_id blobDeleted commits now =>
    change WellFormed (deleteAttachment st role case_id attachment_id blobDeleted commits now).2
    rcases deleteAttachment_cases st role case_id attachment_id blobDeleted commits now with
      ⟨e,heq⟩ | ⟨attachment,file,-,-,heq⟩
    · rw [heq]
      exact h
    · rw [heq]
      cases commits with
      | false => exact ⟨h.fileIds,h.filesBelow,h.attachmentIds,h.attachmentsBelow,h.references,h.links⟩
      | true => exact h.changeFile file.id (id_softDelete _) _

end WellFormed
end Attachments
end Allama
