import Allama.AttachmentSteps
import Allama.Runs

/-! The limits of a case are checked for the case that is written to: they hold of every case as long as a file that comes
back finds room in the other cases that refer to it. -/
namespace Allama
namespace Attachments
open IdRows
section Loads

def references (st : State) (case_id : String) : List Nat :=
  (st.attachments.filter fun attachment => attachment.case_id = case_id).map CaseAttachment.file_id

def weight (weigh : File → Nat) (st : State) (file_id : Nat) : Nat := ((activeFile st file_id).map weigh).getD 0

def load (weigh : File → Nat) (st : State) (case_id : String) : Nat :=
  ((references st case_id).map (weight weigh st)).sum

theorem sum_activeAttachments (weigh : File → Nat) (st : State) (case_id : String) :
    ((activeAttachments st case_id).map fun attachment => weight weigh st attachment.file_id).sum =
      load weigh st case_id := by
  unfold activeAttachments load references
  induction st.attachments with
  | nil => rfl
  | cons attachment attachments ih =>
    by_cases hcase : attachment.case_id = case_id
    · cases hfile : activeFile st attachment.file_id with
      | none =>
        have hweight : weight weigh st attachment.file_id = 0 := by
          unfold weight
          rw [hfile]
          rfl
        rw [List.filter_cons_of_neg (by simp [hfile]), List.filter_cons_of_pos (by simp [hcase]), List.map_cons,
          List.map_cons, List.sum_cons, hweight, Nat.zero_add]
        exact ih
      | some file =>
        rw [List.filter_cons_of_pos (by simp [hfile, hcase]), List.filter_cons_of_pos (by simp [hcase]), List.map_cons,
          List.map_cons, List.map_cons, List.sum_cons, List.sum_cons, ih]
    · rw [List.filter_cons_of_neg (by simp [hcase]), List.filter_cons_of_neg (by simp [hcase])]
      exact ih

theorem length_activeAttachments (st : State) (case_id : String) :
    (activeAttachments st case_id).length = load (fun _ => 1) st case_id := by
  rw [← sum_activeAttachments]
  have hone : ∀ attachment ∈ activeAttachments st case_id, weight (fun _ => 1) st attachment.file_id = 1 := by
    intro attachment hmem
    have hprop := (List.mem_filter.mp hmem).2
    simp only [decide_eq_true_eq] at hprop
    obtain ⟨file,hfile⟩ := Option.isSome_iff_exists.mp hprop.2
    unfold weight
    rw [hfile]
    rfl
  rw [List.map_congr_left hone]
  clear hone
  induction activeAttachments st case_id with
  | nil => rfl
  | cons attachment attachments ih => rw [List.length_cons, List.map_cons, List.sum_cons, ← ih, Nat.add_comm]

theorem getTotalStorageUsed_eq_load (st : State) (case_id : String) :
    getTotalStorageUsed st case_id = load File.size st case_id := sum_activeAttachments File.size st case_id

variable {st st' : State} {case_id : String} {file : File}

theorem nodup_references (h : WellFormed st) (case_id : String) : (references st case_id).Nodup := by
  apply List.Nodup.of_map fun file_id => (case_id,file_id)
  have hsub : (((st.attachments.filter fun attachment => attachment.case_id = case_id).map
      fun attachment => (attachment.case_id,attachment.file_id))).Nodup :=
    h.links.sublist (List.filter_sublist.map _)
  have heq : (references st case_id).map (fun file_id => (case_id,file_id)) =
      (st.attachments.filter fun attachment => attachment.case_id = case_id).map
        fun attachment => (attachment.case_id,attachment.file_id) := by
    rw [references, List.map_map]
    apply List.map_congr_left
    intro attachment hmem
    have hcase : attachment.case_id = case_id := by simpa using (List.mem_filter.mp hmem).2
    exact Prod.ext hcase.symm rfl
  exact heq ▸ hsub

theorem mem_references {file_id : Nat} : file_id ∈ references st case_id ↔
    ∃ attachment ∈ st.attachments, attachment.case_id = case_id ∧ attachment.file_id = file_id := by
  simp [references, and_assoc]

/-- The one file that a write leaves active under its id. -/
structure Activates (st st' : State) (file : File) : Prop where
  active : activeFile st' file.id = some file
  others : ∀ i, i ≠ file.id → activeFile st' i = activeFile st i

section
variable (h : Activates st st' file)
include h

theorem Activates.weight_self (weigh : File → Nat) : weight weigh st' file.id = weigh file := by
  unfold weight
  rw [h.active]
  rfl

theorem Activates.weight_other (weigh : File → Nat) {i : Nat} (hi : i ≠ file.id) :
    weight weigh st' i = weight weigh st i := by
  unfold weight
  rw [h.others i hi]

theorem Activates.load_referred (hwf : WellFormed st) (weigh : File → Nat)
    (hreferences : references st' case_id = references st case_id) (hmem : file.id ∈ references st case_id) :
    load weigh st' case_id + weight weigh st file.id = load weigh st case_id + weigh file := by
  unfold load
  rw [hreferences, ← h.weight_self weigh]
  exact sum_map_change (nodup_references hwf case_id) hmem fun _ hi => h.weight_other weigh hi

theorem Activates.load_unreferred (weigh : File → Nat) (hreferences : references st' case_id = references st case_id)
    (hmem : file.id ∉ references st case_id) : load weigh st' case_id = load weigh st case_id := by
  unfold load
  rw [hreferences, map_same hmem fun _ hi => h.weight_other weigh hi]

theorem Activates.load_linked (weigh : File → Nat)
    (hreferences : references st' case_id = references st case_id ++ [file.id]) (hmem : file.id ∉ references st case_id) :
    load weigh st' case_id = load weigh st case_id + weigh file := by
  unfold load
  rw [hreferences, List.map_append, List.sum_append, map_same hmem fun _ hi => h.weight_other weigh hi]
  rw [List.map_singleton, List.sum_singleton, h.weight_self]

end

end Loads

section Specification
variable (config : Config) (sha256 : Bytes → String) (workspaceOf : String → String) (validateFile : Validator)

/-- Every case is within the limits of the configuration. -/
def WithinLimits (st : State) : Prop :=
  ∀ case_id, (activeAttachments st case_id).length ≤ config.max_attachments_per_case ∧
    getTotalStorageUsed st case_id ≤ config.max_case_storage_bytes

/-- There is room in a case for a file that the case already refers to, and that a create writes with a size. -/
def RoomFor (st : State) (case_id : String) (file : File) (size : Nat) : Prop :=
  if file.deleted_at.isSome then
    (activeAttachments st case_id).length < config.max_attachments_per_case ∧
      getTotalStorageUsed st case_id + size ≤ config.max_case_storage_bytes
  else getTotalStorageUsed st case_id + size ≤ config.max_case_storage_bytes + file.size

instance (st : State) (case_id : String) (file : File) (size : Nat) : Decidable (RoomFor config st case_id file size) :=
  inferInstanceAs (Decidable (if file.deleted_at.isSome then
      (activeAttachments st case_id).length < config.max_attachments_per_case ∧
        getTotalStorageUsed st case_id + size ≤ config.max_case_storage_bytes
    else getTotalStorageUsed st case_id + size ≤ config.max_case_storage_bytes + file.size))

/-- A create that goes through on a file that is there finds room in the other cases that refer to it. -/
def RestoresWithRoom (st : State) : Call → Prop
  | .create _ case_id params upload commits _ =>
    (checkUpload config workspaceOf validateFile st case_id params).isOk → commits = true →
      ∀ file ∈ fileOf st (workspaceOf case_id) (sha256 params.content), (file.deleted_at.isSome → upload = .stored) →
        ∀ attachment ∈ st.attachments, attachment.file_id = file.id → attachment.case_id ≠ case_id →
          RoomFor config st attachment.case_id file params.content.length
  | .delete _ _ _ _ _ _ => True

instance (st : State) (c : Call) : Decidable (RestoresWithRoom config sha256 workspaceOf validateFile st c) :=
  match c with
  | .create _ case_id params upload commits _ =>
    inferInstanceAs (Decidable ((checkUpload config workspaceOf validateFile st case_id params).isOk → commits = true →
      ∀ file ∈ fileOf st (workspaceOf case_id) (sha256 params.content), (file.deleted_at.isSome → upload = .stored) →
        ∀ attachment ∈ st.attachments, attachment.file_id = file.id → attachment.case_id ≠ case_id →
          RoomFor config st attachment.case_id file params.content.length))
  | .delete _ _ _ _ _ _ => inferInstanceAs (Decidable True)

end Specification

section Limits
variable {config : Config} {sha256 : Bytes → String} {workspaceOf : String → String} {validateFile : Validator}
  {st st' staged : State} {case_id : String} {params : CaseAttachmentCreate} {file : File}

theorem room_of_checkUpload {validated : String × String}
    (h : checkUpload config workspaceOf validateFile st case_id params = .ok validated) :
    load (fun _ => 1) st case_id < config.max_attachments_per_case ∧
      load File.size st case_id + params.content.length ≤ config.max_case_storage_bytes := by
  rw [← length_activeAttachments, ← getTotalStorageUsed_eq_load]
  unfold checkUpload assertCaseLimits at h
  dsimp only at h
  split at h
  · cases h
  · split at h
    · cases h
    · rename_i hlimits
      split at hlimits
      · cases hlimits
      · rename_i hcount
        split at hlimits
        · cases hlimits
        · rename_i hstorage
          exact ⟨Nat.lt_of_not_le hcount,Nat.le_of_not_lt hstorage⟩

theorem weight_of_none (weigh : File → Nat) {i : Nat} (h : activeFile st i = none) : weight weigh st i = 0 := by
  unfold weight
  rw [h]
  rfl

theorem Staging.before {upload : Upload} {restored : Bool}
    (hstage : Staging st (workspaceOf case_id) (sha256 params.content) params.content upload staged file restored)
    (hwf : WellFormed st) :
    (∀ other, file.id ∉ references st other) ∨
      ∃ row, fileOf st (workspaceOf case_id) (sha256 params.content) = some row ∧ row.id = file.id ∧
        (row.deleted_at.isSome → restored = true ∧ upload = .stored ∧ activeFile st file.id = none) ∧
        (row.deleted_at = none → restored = false ∧ activeFile st file.id = some row) := by
  have hat : ∀ row, fileOf st (workspaceOf case_id) (sha256 params.content) = some row →
      rowAt File.id row.id st.files = some row := fun row hrow =>
    (rowAt_eq_some hwf.fileIds).mpr ⟨(fileOf_mem hrow).1,rfl⟩
  cases hstage with
  | added file hnone hid =>
    left
    intro other hmem
    obtain ⟨attachment,hattachment,-,hfile⟩ := mem_references.mp hmem
    -- ids of files grow, so that no attachment refers to a file that is new
    have hlt := hwf.filesBelow _ (hwf.references attachment hattachment)
    omega
  | restored row hrow hdeleted hupload =>
    right
    refine ⟨row,hrow,rfl,?_,?_⟩
    · intro _
      refine ⟨rfl,hupload,?_⟩
      change (rowAt File.id row.id st.files).filter _ = none
      rw [hat row hrow]
      simp [Option.isSome_iff_ne_none.mp hdeleted]
    · intro hactive
      rw [hactive] at hdeleted
      cases hdeleted
  | found row hrow hactive =>
    right
    refine ⟨row,hrow,rfl,?_,?_⟩
    · intro hdeleted
      rw [hactive] at hdeleted
      cases hdeleted
    · intro _
      refine ⟨rfl,?_⟩
      change (rowAt File.id row.id st.files).filter _ = some row
      rw [hat row hrow]
      simp [hactive]

/-- A case that already refers to the file is within its limits when it has room for it. -/
theorem within_of_room {upload : Upload} {restored : Bool} {other : String} (hwf : WellFormed st)
    (hlimits : WithinLimits config st) (hchange : Activates st st' file)
    (hstage : Staging st (workspaceOf case_id) (sha256 params.content) params.content upload staged file restored)
    (hreferences : references st' other = references st other)
    (hroom : ∀ row, fileOf st (workspaceOf case_id) (sha256 params.content) = some row → row.id = file.id →
      (row.deleted_at.isSome → upload = .stored) → file.id ∈ references st other →
      RoomFor config st other row params.content.length) :
    (activeAttachments st' other).length ≤ config.max_attachments_per_case ∧
      getTotalStorageUsed st' other ≤ config.max_case_storage_bytes := by
  have hbefore := hlimits other
  simp only [length_activeAttachments, getTotalStorageUsed_eq_load] at hbefore ⊢
  by_cases hmem : file.id ∈ references st other
  · have hcount := hchange.load_referred hwf (fun _ => 1) hreferences hmem
    have hstorage := hchange.load_referred hwf File.size hreferences hmem
    rw [hstage.size] at hstorage
    rcases hstage.before hwf with hnone | ⟨row,hrow,hid,hdeleted,hactive⟩
    · exact absurd hmem (hnone other)
    · have hspace := hroom row hrow hid (fun h => (hdeleted h).2.1) hmem
      unfold RoomFor at hspace
      simp only [length_activeAttachments, getTotalStorageUsed_eq_load] at hspace
      -- an active file weighs in already, and one that comes back needs room
      cases hrowDeleted : row.deleted_at with
      | none =>
        have hweight : ∀ weigh : File → Nat, weight weigh st file.id = weigh row := by
          intro weigh
          unfold weight
          rw [(hactive hrowDeleted).2]
          rfl
        rw [hrowDeleted, if_neg (by simp)] at hspace
        rw [hweight] at hcount hstorage
        omega
      | some t =>
        have hgone : row.deleted_at.isSome := by
          rw [hrowDeleted]
          rfl
        rw [if_pos hgone] at hspace
        rw [weight_of_none _ (hdeleted hgone).2.2] at hcount hstorage
        omega
  · rw [hchange.load_unreferred _ hreferences hmem, hchange.load_unreferred _ hreferences hmem]
    exact hbefore

/-- A create keeps every case within its limits when the other cases have room. -/
theorem withinLimits_create {role : Role} {upload : Upload} {commits : Bool} {now : Nat} (hwf : WellFormed st)
    (hlimits : WithinLimits config st)
    (hok : RestoresWithRoom config sha256 workspaceOf validateFile st (.create role case_id params upload commits now)) :
    WithinLimits config
      (createAttachment config sha256 workspaceOf validateFile st role case_id params upload commits now).2 := by
  rcases createAttachment_cases config sha256 workspaceOf validateFile with
    ⟨-,hst | hst⟩ | ⟨validated,staged,file,restored,id,st',hcheck,hstage,hlink,heq⟩
  · rw [hst]
    exact hlimits
  · rw [hst]
    exact hlimits
  rw [heq]
  obtain ⟨hactive,hothers⟩ := hstage.active hwf
  obtain ⟨hcount,hstorage⟩ := room_of_checkUpload hcheck
  cases hlink with
  | unchanged => exact hlimits
  | restored attachment hattachment hcase hfile hcommits =>
    intro other
    have hreferences : references staged other = references st other := by
      unfold references
      rw [hstage.attachments]
    apply within_of_room hwf hlimits ⟨hactive,hothers⟩ hstage hreferences
    intro row hrow hid hupload hmem
    by_cases hother : other = case_id
    · -- the limits of this case were checked for a file that comes back
      subst hother
      rcases hstage.before hwf with hnone | ⟨row',hrow',-,-,hactive'⟩
      · exact absurd hmem (hnone other)
      · obtain rfl : row = row' := Option.some.inj (hrow.symm.trans hrow')
        have hdeleted : row.deleted_at.isSome := by
          cases hrowDeleted : row.deleted_at with
          | none => cases (hactive' hrowDeleted).1
          | some t => rfl
        unfold RoomFor
        rw [if_pos hdeleted, length_activeAttachments, getTotalStorageUsed_eq_load]
        exact ⟨hcount,hstorage⟩
    · obtain ⟨linked,hlinked,hcase',hfile'⟩ := mem_references.mp hmem
      have hroom := hok (by rw [hcheck]; rfl) hcommits row hrow hupload linked hlinked (hfile'.trans hid.symm)
      rw [hcase'] at hroom
      exact hroom hother
  | added _ hnone hcommits =>
    intro other
    have hchange : Activates st
        { staged with
          attachments := staged.attachments ++ [⟨staged.next_id,case_id,file.id,now⟩], next_id := staged.next_id + 1 }
        file := ⟨hactive,hothers⟩
    by_cases hother : other = case_id
    · subst hother
      have hfree : file.id ∉ references st other := by
        intro hmem
        obtain ⟨attachment,hattachment,hcase,hfile⟩ := mem_references.mp hmem
        exact hnone attachment (hstage.attachments ▸ hattachment) hcase hfile
      have hreferences : references
          { staged with
            attachments := staged.attachments ++ [⟨staged.next_id,other,file.id,now⟩], next_id := staged.next_id + 1 }
          other = references st other ++ [file.id] := by
        simp [references, hstage.attachments]
      rw [length_activeAttachments, getTotalStorageUsed_eq_load, hchange.load_linked _ hreferences hfree,
        hchange.load_linked _ hreferences hfree, hstage.size]
      exact ⟨hcount,hstorage⟩
    · have hreferences : references
          { staged with
            attachments := staged.attachments ++ [⟨staged.next_id,case_id,file.id,now⟩], next_id := staged.next_id + 1 }
          other = references st other := by
        simp [references, hstage.attachments, Ne.symm hother]
      apply within_of_room hwf hlimits hchange hstage hreferences
      intro row hrow hid hupload hmem
      -- another case that refers to the file must have room when it comes back
      obtain ⟨linked,hlinked,hcase,hfile⟩ := mem_references.mp hmem
      have hroom := hok (by rw [hcheck]; rfl) hcommits row hrow hupload linked hlinked (hfile.trans hid.symm)
      rw [hcase] at hroom
      exact hroom hother

theorem withinLimits_delete {role : Role} {attachment_id : Nat} {blobDeleted commits : Bool} {now : Nat}
    (hlimits : WithinLimits config st) :
    WithinLimits config (deleteAttachment st role case_id attachment_id blobDeleted commits now).2 := by
  rcases deleteAttachment_cases st role case_id attachment_id blobDeleted commits now with
    ⟨e,heq⟩ | ⟨attachment,file,-,-,heq⟩
  · rw [heq]
    exact hlimits
  rw [heq]
  cases commits with
  | false => exact hlimits
  | true =>
    intro other
    have hle : ∀ weigh : File → Nat, load weigh (stageDeletion st file blobDeleted now) other ≤ load weigh st other := by
      intro weigh
      apply sum_map_le
      intro i _
      unfold weight activeFile stageDeletion
      dsimp only
      rw [rowAt_changeAt file.id (id_softDelete now)]
      split
      · cases rowAt File.id i st.files with
        | none => exact Nat.le_refl _
        | some row => exact Nat.zero_le _
      · exact Nat.le_refl _
    have hbefore := hlimits other
    simp only [length_activeAttachments, getTotalStorageUsed_eq_load] at hbefore ⊢
    exact ⟨Nat.le_trans (hle _) hbefore.1,Nat.le_trans (hle _) hbefore.2⟩

/-- In a run in which the files that come back find room in the other cases, every case is within its limits. -/
theorem limits_kept
    (h : Runs.Reaches (next config sha256 workspaceOf validateFile)
      (RestoresWithRoom config sha256 workspaceOf validateFile) State.empty st) : WithinLimits config st := by
  have hboth : WellFormed st ∧ WithinLimits config st := by
    apply h.invariant ⟨wellFormed_empty,fun _ => ⟨Nat.zero_le _,Nat.zero_le _⟩⟩
    rintro st c st' - ⟨hwf,hlimits⟩ hok hnext
    cases hnext
    refine ⟨wellFormed_call hwf c,?_⟩
    cases c with
    | create role case_id params upload commits now => exact withinLimits_create hwf hlimits hok
    | delete role case_id attachment_id blobDeleted commits now => exact withinLimits_delete hlimits
  exact hboth.2

/-- A file that is deleted in one case comes back with an upload in another. -/
def sharedUploads : List Call :=
  [.create sampleService "first" (sampleUpload [97]) .stored true 0,
    .delete sampleService "first" 1 true true 1,
    .create sampleService "second" (sampleUpload [97]) .stored true 2]

theorem limits_kept_shared : ∃ st,
    Runs.follow (next ⟨100,2,100⟩ sampleDigest (fun _ => "workspace") sampleValidator) State.empty sharedUploads = some st ∧
      WithinLimits ⟨100,2,100⟩ st := by
  have hrun : ∃ st, Runs.followOk (next ⟨100,2,100⟩ sampleDigest (fun _ => "workspace") sampleValidator)
      (fun st c => decide (RestoresWithRoom ⟨100,2,100⟩ sampleDigest (fun _ => "workspace") sampleValidator st c))
      State.empty sharedUploads = some st ∧
      Runs.follow (next ⟨100,2,100⟩ sampleDigest (fun _ => "workspace") sampleValidator) State.empty sharedUploads =
        some st := ⟨_,rfl,rfl⟩
  obtain ⟨st,hok,hst⟩ := hrun
  exact ⟨st,hst,limits_kept ((Runs.reaches_of_followOk hok).weaken fun _ _ h => of_decide_eq_true h)⟩

/-- A case at its limit gets its deleted file back when another case uploads the content. -/
theorem restored_file_over_limit : ∃ st,
    Runs.Reachable (next ⟨100,1,100⟩ sampleDigest (fun _ => "workspace") sampleValidator) State.empty st ∧
      ¬ WithinLimits ⟨100,1,100⟩ st := by
  have hrun : ∃ st, Runs.follow (next ⟨100,1,100⟩ sampleDigest (fun _ => "workspace") sampleValidator) State.empty
      [.create sampleService "first" (sampleUpload [97]) .stored true 0,
        .delete sampleService "first" 1 true true 1,
        .create sampleService "first" (sampleUpload [98]) .stored true 2,
        .create sampleService "second" (sampleUpload [97]) .stored true 3] = some st ∧
      (activeAttachments st "first").length = 2 := ⟨_,rfl,rfl⟩
  obtain ⟨st,hst,hcount⟩ := hrun
  refine ⟨st,Runs.reachable_of_follow hst,?_⟩
  intro hlimits
  have hle := (hlimits "first").1
  rw [hcount] at hle
  exact absurd hle (by decide)

end Limits
end Attachments
end Allama
