import Allama.AttachmentSteps
import Allama.Runs

/-! Files and objects are shared by content: what was attached to a case can be read from it as long as no other attachment
of the content is deleted. -/
namespace Allama
namespace Attachments
open IdRows RecordFields

/-- An attachment that was created and has not been deleted since. -/
structure Kept where
  attachment_id : Nat
  case_id : String
  content : Bytes
deriving DecidableEq, Repr

/-- The tables and the bucket, with what the calls that led there promise. -/
structure History where
  tables : State
  kept : List Kept
deriving DecidableEq, Repr

section Specification
variable (config : Config) (sha256 : Bytes → String) (workspaceOf : String → String) (validateFile : Validator)

/-- A call, with the attachment that it adds or takes away when it succeeds. -/
def History.call (h : History) : Call → History
  | .create role case_id params upload commits now =>
    match createAttachment config sha256 workspaceOf validateFile h.tables role case_id params upload commits now with
    | (.ok id,tables) => ⟨tables,⟨id,case_id,params.content⟩ :: h.kept⟩
    | (.error _,tables) => ⟨tables,h.kept⟩
  | .delete role case_id attachment_id blobDeleted commits now =>
    match deleteAttachment h.tables role case_id attachment_id blobDeleted commits now with
    | (.ok (),tables) => ⟨tables,h.kept.filter fun e => e.attachment_id ≠ attachment_id⟩
    | (.error _,tables) => ⟨tables,h.kept⟩

def History.next (h : History) (c : Call) : Option History := some (h.call config sha256 workspaceOf validateFile c)

/-- An attachment is listed for its case, and its download returns the bytes it was created with. -/
def Intact (tables : State) (e : Kept) : Prop :=
  (∃ attachment ∈ listAttachments tables e.case_id, attachment.id = e.attachment_id) ∧
    ∃ name content_type, downloadAttachment sha256 tables e.case_id e.attachment_id = .ok (e.content,name,content_type)

/-- A file is deleted only while no other attachment refers to it, an object only with the last attachment of its digest,
and digests do not collide. -/
def SparesOthers (h : History) : Call → Prop
  | .create _ _ params _ _ _ =>
    ∀ content ∈ h.tables.blobs.lookup (storageKeyFor (sha256 params.content)), content = params.content
  | .delete role case_id attachment_id blobDeleted commits _ =>
    ∀ row ∈ (requireAttachment h.tables case_id attachment_id).toOption, ¬ deniedTo role row.2 → ∀ e ∈ h.kept,
      (commits = true → e.attachment_id ≠ attachment_id → ∀ attachment ∈ h.tables.attachments,
        attachment.id = e.attachment_id → attachment.file_id ≠ row.2.id) ∧
      (blobDeleted = true → sha256 e.content = row.2.sha256 → commits = true ∧ e.attachment_id = attachment_id)

instance (h : History) (c : Call) : Decidable (SparesOthers sha256 h c) :=
  match c with
  | .create _ _ params _ _ _ => inferInstanceAs (Decidable
      (∀ content ∈ h.tables.blobs.lookup (storageKeyFor (sha256 params.content)), content = params.content))
  | .delete role case_id attachment_id blobDeleted commits _ => inferInstanceAs (Decidable
      (∀ row ∈ (requireAttachment h.tables case_id attachment_id).toOption, ¬ deniedTo role row.2 → ∀ e ∈ h.kept,
        (commits = true → e.attachment_id ≠ attachment_id → ∀ attachment ∈ h.tables.attachments,
          attachment.id = e.attachment_id → attachment.file_id ≠ row.2.id) ∧
        (blobDeleted = true → sha256 e.content = row.2.sha256 → commits = true ∧ e.attachment_id = attachment_id)))

/-- The row and the object of an attachment that is kept. -/
structure Backed (tables : State) (e : Kept) (file : File) : Prop where
  attached : ∃ attachment ∈ tables.attachments, attachment.id = e.attachment_id ∧ attachment.case_id = e.case_id ∧
    attachment.file_id = file.id
  active : activeFile tables file.id = some file
  digest : file.sha256 = sha256 e.content
  object : tables.blobs.lookup (storageKeyFor file.sha256) = some e.content

/-- Every attachment that is kept has its row and object, and every active file an attachment that is kept. -/
structure Owned (h : History) : Prop where
  wellFormed : WellFormed h.tables
  backed : ∀ e ∈ h.kept, ∃ file, Backed sha256 h.tables e file
  owner : ∀ file, activeFile h.tables file.id = some file → ∃ e ∈ h.kept, Backed sha256 h.tables e file

end Specification

section Contents
variable {config : Config} {sha256 : Bytes → String} {workspaceOf : String → String} {validateFile : Validator}
  {st st' staged : State} {h : History} {e : Kept} {file : File}

theorem storageKeyFor_inj {sha sha' : String} : storageKeyFor sha = storageKeyFor sha' ↔ sha = sha' := by
  simp [storageKeyFor, toString]

theorem activeFile_id {i : Nat} (hactive : activeFile st i = some file) : file.id = i :=
  (rowAt_mem (Option.filter_eq_some_iff.mp hactive).1).2

theorem Backed.intact (hback : Backed sha256 st e file) (hwf : WellFormed st) : Intact sha256 st e := by
  obtain ⟨attachment,hmem,hid,hcase,hfile⟩ := hback.attached
  have hactive : activeFile st attachment.file_id = some file := hfile ▸ hback.active
  have hlisted : attachment ∈ activeAttachments st e.case_id :=
    List.mem_filter.mpr ⟨hmem,decide_eq_true ⟨hcase,by rw [hactive]; rfl⟩⟩
  refine ⟨⟨attachment,List.mem_mergeSort.mpr hlisted,hid⟩,file.name,file.content_type,?_⟩
  have hnodup : ((activeAttachments st e.case_id).map CaseAttachment.id).Nodup :=
    hwf.attachmentIds.sublist (List.filter_sublist.map _)
  have hget : getAttachment st e.case_id e.attachment_id = some attachment :=
    (rowAt_eq_some hnodup).mpr ⟨hlisted,hid⟩
  have hrequire : requireAttachment st e.case_id e.attachment_id = .ok (attachment,file) := by
    simp only [requireAttachment, hget, Option.bind_some, hactive, Option.map_some]
  unfold downloadAttachment
  rw [hrequire]
  simp only [bind, Except.bind, hback.object]
  exact if_pos hback.digest.symm

theorem Backed.frame (hback : Backed sha256 st e file) (hattachments : ∀ a ∈ st.attachments, a ∈ st'.attachments)
    (hactive : activeFile st' file.id = activeFile st file.id)
    (hobject : st'.blobs.lookup (storageKeyFor file.sha256) = st.blobs.lookup (storageKeyFor file.sha256)) :
    Backed sha256 st' e file where
  attached := by
    obtain ⟨attachment,hmem,hrest⟩ := hback.attached
    exact ⟨attachment,hattachments attachment hmem,hrest⟩
  active := hactive.trans hback.active
  digest := hback.digest
  object := hobject.trans hback.object

theorem lookup_written {content : Bytes} {sha sha' : String}
    (hcollide : ∀ c ∈ st.blobs.lookup (storageKeyFor sha), c = content)
    (hsome : (st.blobs.lookup (storageKeyFor sha')).isSome) :
    (put (storageKeyFor sha) content st.blobs).lookup (storageKeyFor sha') = st.blobs.lookup (storageKeyFor sha') := by
  rw [lookup_put]
  split
  · rename_i hkey
    obtain ⟨c,hc⟩ := Option.isSome_iff_exists.mp hsome
    rw [hc]
    rw [eq_of_beq hkey] at hc
    rw [hcollide c hc]
  · rfl

theorem object_of_fileOf {workspace_id : String} {content : Bytes} (howned : Owned sha256 h)
    (hfile : fileOf h.tables workspace_id (sha256 content) = some file) (hactive : file.deleted_at = none)
    (hcollide : ∀ c ∈ h.tables.blobs.lookup (storageKeyFor (sha256 content)), c = content) :
    activeFile h.tables file.id = some file ∧
      h.tables.blobs.lookup (storageKeyFor (sha256 content)) = some content := by
  obtain ⟨hmem,hsha,-⟩ := fileOf_mem hfile
  have hfound : activeFile h.tables file.id = some file := by
    unfold activeFile
    rw [(rowAt_eq_some howned.wellFormed.fileIds).mpr ⟨hmem,rfl⟩]
    simp [hactive]
  obtain ⟨e,-,hback⟩ := howned.owner file hfound
  have hobject := hback.object
  rw [hsha] at hobject
  refine ⟨hfound,?_⟩
  rw [hobject, hcollide e.content hobject]

/-- After an upload is staged its file has its digest, its object its content, and the other objects are as before. -/
theorem Staging.contents {workspace_id : String} {content : Bytes} {upload : Upload} {restored : Bool}
    (howned : Owned sha256 h)
    (hstage : Staging h.tables workspace_id (sha256 content) content upload staged file restored)
    (hcollide : ∀ c ∈ h.tables.blobs.lookup (storageKeyFor (sha256 content)), c = content) :
    file.sha256 = sha256 content ∧ (∀ row, activeFile h.tables file.id = some row → row.sha256 = sha256 content) ∧
      staged.blobs.lookup (storageKeyFor (sha256 content)) = some content ∧
      ∀ sha, (h.tables.blobs.lookup (storageKeyFor sha)).isSome →
        staged.blobs.lookup (storageKeyFor sha) = h.tables.blobs.lookup (storageKeyFor sha) := by
  have hwritten : (put (storageKeyFor (sha256 content)) content h.tables.blobs).lookup (storageKeyFor (sha256 content)) =
      some content := by
    rw [lookup_put, if_pos (beq_self_eq_true _)]
  have hprior : ∀ found, fileOf h.tables workspace_id (sha256 content) = some found →
      ∀ row, activeFile h.tables found.id = some row → row.sha256 = sha256 content := by
    intro found hfound row hrow
    have hrowAt := (Option.filter_eq_some_iff.mp hrow).1
    have hfoundAt := (rowAt_eq_some howned.wellFormed.fileIds).mpr ⟨(fileOf_mem hfound).1,rfl⟩
    obtain rfl := Option.some.inj (hrowAt.symm.trans hfoundAt)
    exact (fileOf_mem hfound).2.1
  cases hstage with
  | added file hnone hid hworkspace hsha =>
    refine ⟨hsha,?_,hwritten,fun sha hsome => lookup_written hcollide hsome⟩
    intro row hrow
    have hlt := howned.wellFormed.filesBelow row.id
      (List.mem_map_of_mem (rowAt_mem (Option.filter_eq_some_iff.mp hrow).1).1)
    have hrowId := activeFile_id hrow
    omega
  | restored found hfound =>
    exact ⟨(fileOf_mem hfound).2.1,hprior found hfound,hwritten,fun sha hsome => lookup_written hcollide hsome⟩
  | found found hfound hactive =>
    exact ⟨(fileOf_mem hfound).2.1,hprior found hfound,(object_of_fileOf howned hfound hactive hcollide).2,fun _ _ => rfl⟩

theorem Owned.frame (howned : Owned sha256 h) (hwf : WellFormed st') (hattachments : st'.attachments = h.tables.attachments)
    (hfiles : st'.files = h.tables.files)
    (hobject : ∀ e ∈ h.kept, st'.blobs.lookup (storageKeyFor (sha256 e.content)) =
      h.tables.blobs.lookup (storageKeyFor (sha256 e.content))) : Owned sha256 ⟨st',h.kept⟩ := by
  have hactive : ∀ i, activeFile st' i = activeFile h.tables i := by
    intro i
    unfold activeFile
    rw [hfiles]
  have hframe : ∀ e ∈ h.kept, ∀ file, Backed sha256 h.tables e file → Backed sha256 st' e file := by
    intro e he file hback
    apply hback.frame
    · rw [hattachments]
      exact fun _ ha => ha
    · exact hactive file.id
    · rw [hback.digest]
      exact hobject e he
  constructor
  · exact hwf
  · intro e he
    obtain ⟨file,hback⟩ := howned.backed e he
    exact ⟨file,hframe e he file hback⟩
  · intro file hfile
    obtain ⟨e,he,hback⟩ := howned.owner file ((hactive file.id).symm.trans hfile)
    exact ⟨e,he,hframe e he file hback⟩

/-- A file that is active with a new attachment and its object is owned by it, and everything else by what it was. -/
theorem Owned.add {content : Bytes} (howned : Owned sha256 h) (hwf : WellFormed st')
    (hattachments : ∀ a ∈ h.tables.attachments, a ∈ st'.attachments)
    (hactive : activeFile st' file.id = some file ∧ ∀ i, i ≠ file.id → activeFile st' i = activeFile h.tables i)
    (hback : Backed sha256 st' e file) (hcontent : e.content = content)
    (hcollide : ∀ c ∈ h.tables.blobs.lookup (storageKeyFor (sha256 content)), c = content)
    (hprior : ∀ row, activeFile h.tables file.id = some row → row.sha256 = sha256 content)
    (hobjects : ∀ sha, (h.tables.blobs.lookup (storageKeyFor sha)).isSome →
      st'.blobs.lookup (storageKeyFor sha) = h.tables.blobs.lookup (storageKeyFor sha)) :
    Owned sha256 ⟨st',e :: h.kept⟩ := by
  have hframe : ∀ e' file', file'.id ≠ file.id → Backed sha256 h.tables e' file' → Backed sha256 st' e' file' := by
    intro e' file' hne hback'
    apply hback'.frame hattachments (hactive.2 _ hne)
    apply hobjects
    rw [hback'.object]
    rfl
  constructor
  · exact hwf
  · intro e' he'
    rcases List.mem_cons.mp he' with rfl | hold
    · exact ⟨file,hback⟩
    · obtain ⟨file',hback'⟩ := howned.backed e' hold
      by_cases hid : file'.id = file.id
      · -- the same file: the contents agree, as the digests do
        have hdigest : file'.sha256 = sha256 content := hprior file' (hid ▸ hback'.active)
        have hobject := hback'.object
        rw [hdigest] at hobject
        have hsame : e'.content = content := hcollide e'.content hobject
        obtain ⟨attachment,hmem,hattachment,hcase,hfile⟩ := hback'.attached
        refine ⟨file,⟨attachment,hattachments attachment hmem,hattachment,hcase,hfile.trans hid⟩,hactive.1,?_,?_⟩
        · rw [hback.digest, hsame, hcontent]
        · rw [hback.object, hsame, hcontent]
      · exact ⟨file',hframe e' file' hid hback'⟩
  · intro file' hfile'
    by_cases hid : file'.id = file.id
    · obtain rfl : file = file' := Option.some.inj (hactive.1.symm.trans (hid ▸ hfile'))
      exact ⟨e,List.mem_cons_self,hback⟩
    · obtain ⟨e',he',hback'⟩ := howned.owner file' ((hactive.2 _ hid).symm.trans hfile')
      exact ⟨e',List.mem_cons_of_mem _ he',hframe e' file' hid hback'⟩

/-- A create adds what it returns, and takes nothing away. -/
theorem owned_create {role : Role} {case_id : String} {params : CaseAttachmentCreate} {upload : Upload} {commits : Bool}
    {now : Nat} (howned : Owned sha256 h)
    (hcollide : ∀ c ∈ h.tables.blobs.lookup (storageKeyFor (sha256 params.content)), c = params.content) :
    Owned sha256
      (h.call config sha256 workspaceOf validateFile (.create role case_id params upload commits now)) := by
  have hwf : WellFormed
      (createAttachment config sha256 workspaceOf validateFile h.tables role case_id params upload commits now).2 :=
    wellFormed_call howned.wellFormed (.create role case_id params upload commits now)
  unfold History.call
  dsimp only
  -- a create that fails writes at most the object, which is the same content by the digest
  rcases createAttachment_cases config sha256 workspaceOf validateFile with
    ⟨⟨error,herror⟩,hst⟩ | ⟨validated,staged,file,restored,id,st',-,hstage,hlink,heq⟩
  · generalize createAttachment config sha256 workspaceOf validateFile h.tables role case_id params upload commits now =
      outcome at herror hst hwf ⊢
    obtain ⟨result,tables⟩ := outcome
    obtain rfl : result = .error error := herror
    dsimp only at hst hwf ⊢
    rcases hst with hst | hst
    · rw [hst]
      exact howned
    · rw [hst] at hwf ⊢
      apply howned.frame hwf rfl rfl
      intro e he
      obtain ⟨file,hback⟩ := howned.backed e he
      apply lookup_written hcollide
      rw [← hback.digest, hback.object]
      rfl
  rw [heq] at hwf ⊢
  dsimp only at hwf ⊢
  have hactive := hstage.active howned.wellFormed
  obtain ⟨hsha,hprior,hobject,hobjects⟩ := hstage.contents howned hcollide
  cases hlink with
  | unchanged attachment hmem hcase hfile =>
    -- nothing is written: the attachment and its file are there
    have hback : ∃ row, Backed sha256 h.tables ⟨attachment.id,case_id,params.content⟩ row := by
      cases hstage with
      | added file hnone hid =>
        have hlt := howned.wellFormed.filesBelow _ (howned.wellFormed.references attachment hmem)
        omega
      | found row hrow hnotDeleted =>
        obtain ⟨hfound,hcontent⟩ := object_of_fileOf howned hrow hnotDeleted hcollide
        refine ⟨row,⟨attachment,hmem,rfl,hcase,hfile⟩,hfound,(fileOf_mem hrow).2.1,?_⟩
        rw [(fileOf_mem hrow).2.1]
        exact hcontent
    obtain ⟨row,hback⟩ := hback
    apply howned.add hwf (fun _ ha => ha) ⟨hback.active,fun _ _ => rfl⟩ hback rfl hcollide
    · intro row' hrow'
      obtain rfl := Option.some.inj (hback.active.symm.trans hrow')
      exact hback.digest
    · exact fun _ _ => rfl
  | restored attachment hmem hcase hfile =>
    refine howned.add hwf ?_ hactive ⟨⟨attachment,hmem,rfl,hcase,hfile⟩,hactive.1,hsha,?_⟩ rfl hcollide hprior hobjects
    · rw [hstage.attachments]
      exact fun _ ha => ha
    · rw [hsha]
      exact hobject
  | added _ hnone =>
    refine howned.add hwf ?_ hactive
      ⟨⟨_,List.mem_append_right _ (List.mem_singleton.mpr rfl),rfl,rfl,rfl⟩,hactive.1,hsha,?_⟩ rfl hcollide hprior hobjects
    · intro a ha
      exact List.mem_append_left _ (hstage.attachments ▸ ha)
    · rw [hsha]
      exact hobject

theorem requireAttachment_ok {case_id : String} {attachment_id : Nat} {attachment : CaseAttachment}
    (hrow : requireAttachment st case_id attachment_id = .ok (attachment,file)) :
    attachment ∈ st.attachments ∧ attachment.id = attachment_id ∧ activeFile st attachment.file_id = some file := by
  unfold requireAttachment at hrow
  split at hrow
  · rename_i row hbind
    cases hrow
    obtain ⟨found,hget,hmap⟩ := Option.bind_eq_some_iff.mp hbind
    obtain ⟨row,hactive,hpair⟩ := Option.map_eq_some_iff.mp hmap
    cases hpair
    have hmem := (List.mem_filter.mp (List.mem_of_find?_eq_some hget)).1
    exact ⟨hmem,by simpa using List.find?_some hget,hactive⟩
  · cases hrow

/-- A deletion that spares the others takes away what it deletes, and nothing else. -/
theorem owned_delete {role : Role} {case_id : String} {attachment_id : Nat} {blobDeleted commits : Bool} {now : Nat}
    (howned : Owned sha256 h) (hok : SparesOthers sha256 h (.delete role case_id attachment_id blobDeleted commits now)) :
    Owned sha256
      (h.call config sha256 workspaceOf validateFile (.delete role case_id attachment_id blobDeleted commits now)) := by
  have hwf : WellFormed (deleteAttachment h.tables role case_id attachment_id blobDeleted commits now).2 := by
    have hcall : WellFormed (call config sha256 workspaceOf validateFile h.tables
        (.delete role case_id attachment_id blobDeleted commits now)) := wellFormed_call howned.wellFormed _
    exact hcall
  unfold History.call
  dsimp only
  rcases deleteAttachment_cases h.tables role case_id attachment_id blobDeleted commits now with
    ⟨error,heq⟩ | ⟨attachment,file,hrow,hallowed,heq⟩
  · rw [heq]
    exact howned
  obtain ⟨hmem,hid,hfile⟩ := requireAttachment_ok hrow
  have hspared := hok (attachment,file) (by rw [hrow]; rfl) hallowed
  dsimp only at hspared
  -- the objects of the attachments that stay are there, as the deletion spares them
  have hobjects : ∀ e ∈ h.kept, (commits = true → e.attachment_id ≠ attachment_id) →
      (stageDeletion h.tables file blobDeleted now).blobs.lookup (storageKeyFor (sha256 e.content)) =
        h.tables.blobs.lookup (storageKeyFor (sha256 e.content)) := by
    intro e he hother
    cases blobDeleted with
    | false => rfl
    | true =>
      have hne : storageKeyFor (sha256 e.content) ≠ storageKeyFor file.sha256 := by
        intro hkey
        obtain ⟨hcommits,hsame⟩ := (hspared e he).2 rfl (storageKeyFor_inj.mp hkey)
        exact hother hcommits hsame
      have hfilter := lookup_filter_key (fun key => decide (key ≠ storageKeyFor file.sha256)) h.tables.blobs
        (storageKeyFor (sha256 e.content))
      exact hfilter.trans (if_pos (decide_eq_true hne))
  rw [heq] at hwf ⊢
  cases commits with
  | false => exact howned.frame hwf rfl rfl fun e he => hobjects e he fun hfalse => absurd hfalse Bool.false_ne_true
  | true =>
    have hactive : ∀ i, i ≠ file.id →
        activeFile (stageDeletion h.tables file blobDeleted now) i = activeFile h.tables i := by
      intro i hi
      unfold activeFile stageDeletion
      dsimp only
      rw [rowAt_changeAt file.id (id_softDelete now), if_neg hi]
    have hframe : ∀ e ∈ h.kept, e.attachment_id ≠ attachment_id → ∀ row, Backed sha256 h.tables e row →
        Backed sha256 (stageDeletion h.tables file blobDeleted now) e row := by
      intro e he hother row hback
      obtain ⟨linked,hlinked,hlinkedId,-,hlinkedFile⟩ := hback.attached
      refine hback.frame ?_ ?_ ?_
      · exact fun _ ha => ha
      · apply hactive
        rw [← hlinkedFile]
        exact (hspared e he).1 rfl hother linked hlinked hlinkedId
      · rw [hback.digest]
        exact hobjects e he fun _ => hother
    constructor
    · exact hwf
    · intro e he
      obtain ⟨hold,hother⟩ := List.mem_filter.mp he
      obtain ⟨row,hback⟩ := howned.backed e hold
      exact ⟨row,hframe e hold (by simpa using hother) row hback⟩
    · intro row hrowActive
      have hne : row.id ≠ file.id := by
        intro hsame
        -- the file of the deleted attachment is not active any more
        have hnone : activeFile (stageDeletion h.tables file blobDeleted now) file.id = none := by
          unfold activeFile stageDeletion
          dsimp only
          rw [rowAt_changeAt file.id (id_softDelete now), if_pos rfl]
          cases rowAt File.id file.id h.tables.files <;> rfl
        rw [← hsame] at hnone
        have hsome : activeFile (stageDeletion h.tables file blobDeleted now) row.id = some row := hrowActive
        rw [hnone] at hsome
        cases hsome
      obtain ⟨e,he,hback⟩ := howned.owner row ((hactive _ hne).symm.trans hrowActive)
      have hother : e.attachment_id ≠ attachment_id := by
        intro hsame
        obtain ⟨linked,hlinked,hlinkedId,-,hlinkedFile⟩ := hback.attached
        -- ids are keys: the attachment that keeps the file active is the one that is deleted
        obtain rfl : linked = attachment := List.inj_on_of_nodup_map howned.wellFormed.attachmentIds hlinked hmem
          (hlinkedId.trans (hsame.trans hid.symm))
        exact hne (hlinkedFile.symm.trans (activeFile_id hfile).symm)
      exact ⟨e,List.mem_filter.mpr ⟨he,by simpa using hother⟩,hframe e he hother row hback⟩

theorem owned_empty : Owned sha256 ⟨State.empty,[]⟩ :=
  ⟨wellFormed_empty,fun _ he => (List.not_mem_nil he).elim,fun _ h => (Option.some_ne_none _ h.symm).elim⟩

/-- In a run whose calls spare the other attachments, every attachment that is kept is intact. -/
theorem contents_kept
    (hrun : Runs.Reaches (History.next config sha256 workspaceOf validateFile) (SparesOthers sha256) ⟨State.empty,[]⟩ h) :
    ∀ e ∈ h.kept, Intact sha256 h.tables e := by
  have howned : Owned sha256 h := by
    apply hrun.invariant owned_empty
    intro h c h' _ howned hok hnext
    cases hnext
    cases c with
    | create role case_id params upload commits now => exact owned_create howned hok
    | delete role case_id attachment_id blobDeleted commits now => exact owned_delete howned hok
  intro e he
  obtain ⟨file,hback⟩ := howned.backed e he
  exact hback.intact howned.wellFormed

theorem contents_kept_reuploaded : ∃ h,
    Runs.follow (History.next ⟨100,2,100⟩ sampleDigest (fun _ => "workspace") sampleValidator) ⟨State.empty,[]⟩
      [.create sampleService "first" (sampleUpload [97]) .stored true 0,
        .delete sampleService "first" 1 true true 1,
        .create sampleService "second" (sampleUpload [97]) .stored true 2] = some h ∧
      h.kept = [⟨2,"second",[97]⟩] ∧ ∀ e ∈ h.kept, Intact sampleDigest h.tables e := by
  have hrun : ∃ h, Runs.followOk (History.next ⟨100,2,100⟩ sampleDigest (fun _ => "workspace") sampleValidator)
      (fun h c => decide (SparesOthers sampleDigest h c)) ⟨State.empty,[]⟩
      [.create sampleService "first" (sampleUpload [97]) .stored true 0,
        .delete sampleService "first" 1 true true 1,
        .create sampleService "second" (sampleUpload [97]) .stored true 2] = some h ∧
      Runs.follow (History.next ⟨100,2,100⟩ sampleDigest (fun _ => "workspace") sampleValidator) ⟨State.empty,[]⟩
        [.create sampleService "first" (sampleUpload [97]) .stored true 0,
          .delete sampleService "first" 1 true true 1,
          .create sampleService "second" (sampleUpload [97]) .stored true 2] = some h ∧
      h.kept = [⟨2,"second",[97]⟩] := ⟨_,rfl,rfl,rfl⟩
  obtain ⟨h,hok,hfollow,hkept⟩ := hrun
  exact ⟨h,hfollow,hkept,contents_kept ((Runs.reaches_of_followOk hok).weaken fun _ _ h => of_decide_eq_true h)⟩

/-- A deletion in one case takes the content from another. -/
theorem shared_file_deleted : ∃ h,
    Runs.Reachable (History.next ⟨100,2,100⟩ sampleDigest (fun _ => "workspace") sampleValidator) ⟨State.empty,[]⟩ h ∧
      ∃ e ∈ h.kept, ¬ Intact sampleDigest h.tables e := by
  have hrun : ∃ h, Runs.follow (History.next ⟨100,2,100⟩ sampleDigest (fun _ => "workspace") sampleValidator)
      ⟨State.empty,[]⟩
      [.create sampleService "first" (sampleUpload [97]) .stored true 0,
        .create sampleService "second" (sampleUpload [97]) .stored true 1,
        .delete sampleService "first" 1 true true 2] = some h ∧
      h.kept = [⟨2,"second",[97]⟩] ∧ activeAttachments h.tables "second" = [] := ⟨_,rfl,rfl,rfl⟩
  obtain ⟨h,hfollow,hkept,hnone⟩ := hrun
  refine ⟨h,Runs.reachable_of_follow hfollow,⟨2,"second",[97]⟩,?_,?_⟩
  · rw [hkept]
    exact List.mem_singleton.mpr rfl
  · rintro ⟨⟨attachment,hmem,-⟩,-⟩
    have hlisted : attachment ∈ activeAttachments h.tables "second" := List.mem_mergeSort.mp hmem
    rw [hnone] at hlisted
    exact List.not_mem_nil hlisted

end Contents
end Attachments
end Allama
