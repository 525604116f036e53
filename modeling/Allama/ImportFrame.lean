import Allama.Checked
import Allama.WorkflowImport

/-! What an import leaves of the other workflows of the workspace. -/
namespace Allama
namespace Sync
open Management Checked

/-- What the database holds of a workflow. -/
structure WorkflowView where
  records : List WorkflowRecord
  folders : List Allama.WorkflowRow
  definitions : List Definition
  tags : List Uuid
  schedules : List Schedule
  webhooks : List Webhook

def Database.view (db : Database) (id : Uuid) : WorkflowView where
  records := db.workflows.filter (·.row.id = id)
  folders := db.space.workflows.filter (·.id = id)
  definitions := db.definitions.filter (·.workflowId = id)
  tags := db.tagsOf id
  schedules := db.schedulesOf id
  webhooks := db.webhooks.filter (·.workflowId = id)

/-- The other workflows are as before. -/
def OthersKept (id : Uuid) (db db' : Database) : Prop := ∀ x, x ≠ id → db'.view x = db.view x

/-- The tags and the folders of the workspace are still there. -/
def SharedKept (db db' : Database) : Prop :=
  (∀ tag ∈ db.tags, tag ∈ db'.tags) ∧ ∀ folder ∈ db.space.folders, folder ∈ db'.space.folders

/-- What every step but those on tags leaves. -/
structure Untouched (id : Uuid) (db db' : Database) : Prop where
  others : OthersKept id db db'
  folders : ∀ folder ∈ db.space.folders, folder ∈ db'.space.folders
  tags : db'.tags = db.tags
  workflowTags : db'.workflowTags = db.workflowTags

section Frames
variable {id : Uuid} {db db' db'' : Database}
variable {P : ImportPackages} {uuid4 : Text → Uuid} {A : Type} {xs : List A}

theorem OthersKept.trans (h : OthersKept id db db') (h' : OthersKept id db' db'') : OthersKept id db db'' :=
  fun x hx => (h' x hx).trans (h x hx)

theorem SharedKept.trans (h : SharedKept db db') (h' : SharedKept db' db'') : SharedKept db db'' :=
  ⟨fun tag htag => h'.1 tag (h.1 tag htag),fun folder hfolder => h'.2 folder (h.2 folder hfolder)⟩

theorem Untouched.trans (h : Untouched id db db') (h' : Untouched id db' db'') : Untouched id db db'' where
  others := h.others.trans h'.others
  folders folder hfolder := h'.folders folder (h.folders folder hfolder)
  tags := h'.tags.trans h.tags
  workflowTags := h'.workflowTags.trans h.workflowTags

theorem Untouched.of_view (h : OthersKept id db db') (hspace : db'.space.folders = db.space.folders)
    (htags : db'.tags = db.tags) (hworkflowTags : db'.workflowTags = db.workflowTags) : Untouched id db db' :=
  ⟨h,fun _ hfolder => hspace ▸ hfolder,htags,hworkflowTags⟩

theorem Untouched.shared (h : Untouched id db db') : SharedKept db db' :=
  ⟨fun _ htag => h.tags ▸ htag,h.folders⟩

theorem view_ext {x : Uuid} (hrecords : db'.workflows.filter (·.row.id = x) = db.workflows.filter (·.row.id = x))
    (hfolders : db'.space.workflows.filter (·.id = x) = db.space.workflows.filter (·.id = x))
    (hdefinitions : db'.definitions.filter (·.workflowId = x) = db.definitions.filter (·.workflowId = x))
    (htags : db'.workflowTags.filter (·.2 = x) = db.workflowTags.filter (·.2 = x))
    (hschedules : db'.schedules.filter (·.workflowId = x) = db.schedules.filter (·.workflowId = x))
    (hwebhooks : db'.webhooks.filter (·.workflowId = x) = db.webhooks.filter (·.workflowId = x)) :
    db'.view x = db.view x := by
  simp only [Database.view, Database.tagsOf, Database.schedulesOf, hrecords, hfolders, hdefinitions, htags, hschedules,
    hwebhooks]

theorem filter_append_of_ne {p : A → Bool} {a : A} (h : p a = false) :
    (xs ++ [a]).filter p = xs.filter p := by
  rw [List.filter_append, List.filter_singleton, h]
  simp

theorem filter_map_of_ne {p : A → Bool} {f : A → A} (hp : ∀ a, p (f a) = p a)
    (hf : ∀ a, p a = true → f a = a) : (xs.map f).filter p = xs.filter p := by
  induction xs with
  | nil => rfl
  | cons a xs ih =>
    rw [List.map_cons, List.filter_cons, List.filter_cons, hp, ih]
    split
    · rename_i h
      rw [hf a h]
    · rfl

theorem filter_map_rows {f : A → A} {key : A → Uuid} {x : Uuid} (hx : x ≠ id)
    (hkey : ∀ a, key (f a) = key a) :
    (xs.map fun a => if key a = id then f a else a).filter (key · = x) = xs.filter (key · = x) := by
  apply filter_map_of_ne
  · intro a
    split <;> simp [hkey]
  · intro a ha
    rw [if_neg]
    rw [of_decide_eq_true ha]
    exact hx

theorem createWorkflowDefinition_untouched (dsl : DSLInput) (workflowAlias : Option String) :
    Untouched id db (db.createWorkflowDefinition id dsl workflowAlias) := by
  refine .of_view (fun x hx => ?_) rfl rfl rfl
  apply view_ext
  case hdefinitions => exact filter_append_of_ne (decide_eq_false hx.symm)
  all_goals rfl

theorem updateRecord_untouched {f : WorkflowRecord → WorkflowRecord} (hf : ∀ w, (f w).row.id = w.row.id) :
    Untouched id db (db.updateRecord id f) := by
  refine .of_view (fun x hx => ?_) rfl rfl rfl
  apply view_ext
  case hrecords => exact filter_map_rows hx hf
  all_goals rfl

theorem moveWorkflow_untouched (folderId : Option Uuid) : Untouched id db (db.moveWorkflow id folderId) := by
  refine .of_view (fun x hx => ?_) rfl rfl rfl
  apply view_ext
  case hfolders => exact filter_map_rows hx fun _ => rfl
  all_goals rfl

theorem updateWebhook_untouched {remote : Option RemoteWebhook} (h : updateWebhook id remote db = .ok db') :
    Untouched id db db' := by
  unfold updateWebhook at h
  split at h
  · cases h
    exact .of_view (fun _ _ => rfl) rfl rfl rfl
  · split at h
    · cases h
      refine .of_view (fun x hx => ?_) rfl rfl rfl
      apply view_ext
      case hwebhooks => exact filter_map_rows hx fun _ => rfl
      all_goals rfl
    · cases h

theorem createFolder_grows {folderId : Uuid} {name parentPath : Text} {space space' : Workspace}
    (h : (createFolder folderId name parentPath).exec space = .ok space') :
    space'.workflows = space.workflows ∧ ∀ folder ∈ space.folders, folder ∈ space'.folders := by
  have hunder : ∀ {s : Workspace}, (createUnder folderId name parentPath).exec s = .ok space' →
      space'.workflows = s.workflows ∧ ∀ folder ∈ s.folders, folder ∈ space'.folders := by
    intro s hs
    simp only [createUnder, ReadCommitted.Txn.exec] at hs
    split at hs
    · cases hs
    · simp only [ReadCommitted.Txn.exec, insertFolder] at hs
      split at hs
      · cases hs
        exact ⟨rfl,fun folder hfolder => List.mem_append_left _ hfolder⟩
      · cases hs
  unfold createFolder at h
  split at h
  · cases h
  · split at h
    · simp only [ReadCommitted.Txn.exec] at h
      split at h
      · exact hunder h
      · cases h
    · exact hunder h

theorem ensureSegments_grows {segments : List Text} : ∀ {current : Text} {space space' : Workspace},
    ensureSegments uuid4 current segments space = .ok space' →
      space'.workflows = space.workflows ∧ ∀ folder ∈ space.folders, folder ∈ space'.folders := by
  induction segments with
  | nil =>
    intro current space space' h
    cases h
    exact ⟨rfl,fun _ h => h⟩
  | cons segment segments ih =>
    intro current space space' h
    rw [ensureSegments] at h
    split at h
    · exact ih h
    · dsimp only at h
      split at h
      · exact ih h
      · obtain ⟨middle,hmiddle,h⟩ := bind_eq_ok.mp h
        obtain ⟨hworkflows,hfolders⟩ := createFolder_grows hmiddle
        obtain ⟨hworkflows',hfolders'⟩ := ih h
        exact ⟨hworkflows'.trans hworkflows,fun folder hfolder => hfolders' folder (hfolders folder hfolder)⟩

theorem ensureFolderExists_grows {path : Text} {space space' : Workspace}
    (h : ensureFolderExists uuid4 path space = .ok space') :
    space'.workflows = space.workflows ∧ ∀ folder ∈ space.folders, folder ∈ space'.folders := by
  unfold ensureFolderExists at h
  split at h
  · cases h
  · obtain ⟨middle,hmiddle,h⟩ := bind_eq_ok.mp h
    split at h
    · cases h
    · cases h
      exact ensureSegments_grows hmiddle

theorem liftError_eq_ok {ε : Type} {f : ε → ImportError} {x : Except ε A} {a : A} :
    liftError f x = .ok a ↔ x = .ok a := by
  cases x with
  | ok b =>
    rw [liftError]
    simp
  | error e => simp [liftError]

theorem ensureFolder_untouched {folderPath : Option Text} {folderId : Option Uuid}
    (h : ensureFolder uuid4 folderPath db = .ok (folderId,db')) : Untouched id db db' := by
  unfold ensureFolder at h
  split at h
  · cases h
    exact .of_view (fun _ _ => rfl) rfl rfl rfl
  · cases h
    exact .of_view (fun _ _ => rfl) rfl rfl rfl
  · obtain ⟨space,hspace,h⟩ := bind_eq_ok.mp h
    obtain ⟨hworkflows,hfolders⟩ := ensureFolderExists_grows (liftError_eq_ok.mp hspace)
    cases h
    refine ⟨fun x _ => ?_,hfolders,rfl,rfl⟩
    simp only [Database.view, hworkflows]
    rfl

theorem updateFolderOf_untouched {folderPath : Option Text}
    (h : updateFolderOf uuid4 id folderPath db = .ok db') : Untouched id db db' := by
  unfold updateFolderOf at h
  split at h
  · cases h
    exact moveWorkflow_untouched none
  · cases h
    exact .of_view (fun _ _ => rfl) rfl rfl rfl
  · obtain ⟨⟨folderId,middle⟩,hfolder,h⟩ := bind_eq_ok.mp h
    cases h
    exact (ensureFolder_untouched hfolder).trans (moveWorkflow_untouched folderId)

theorem createSchedule_untouched {scheduleId : Uuid} {params : ScheduleCreate} (hid : params.workflowId = id)
    (h : createSchedule scheduleId params db = .ok db') : Untouched id db db' := by
  rw [createSchedule] at h
  split at h
  · cases h
  · cases h
    refine .of_view (fun x hx => ?_) rfl rfl rfl
    rw [Database.view, Database.schedulesOf, filter_append_of_ne]
    · rfl
    · exact decide_eq_false fun heq => hx (heq.symm.trans hid)

theorem new_eq_ok {params params' : ScheduleCreate} (h : ScheduleCreate.new P params = .ok params') :
    params' = params := by
  unfold ScheduleCreate.new at h
  split at h
  · cases h
  · split at h
    · cases h
    · exact (Except.ok.inj h).symm

theorem createSchedules_untouched {uuid4 : ℕ → Uuid}
    {remoteSchedules : Option (List RemoteWorkflowSchedule)}
    (h : createSchedules P uuid4 id remoteSchedules db = .ok db') : Untouched id db db' := by
  rw [createSchedules] at h
  refine foldlM_invariant (P := Untouched id db) ?_ (.of_view (fun _ _ => rfl) rfl rfl rfl) h
  intro middle data next hmiddle hnext
  obtain ⟨params,hparams,hnext⟩ := bind_eq_ok.mp hnext
  have hid : params.workflowId = id := by rw [new_eq_ok hparams]
  exact hmiddle.trans (createSchedule_untouched hid hnext)

theorem deleteSchedule_untouched {scheduleId : Uuid}
    (h : ∀ schedule ∈ db.schedules, schedule.id = scheduleId → schedule.workflowId = id) :
    Untouched id db (db.deleteSchedule scheduleId) := by
  refine .of_view (fun x hx => ?_) rfl rfl rfl
  have hschedules : (db.deleteSchedule scheduleId).schedulesOf x = db.schedulesOf x := by
    rw [Database.schedulesOf, Database.schedulesOf, Database.deleteSchedule, List.filter_filter]
    apply List.filter_congr
    intro schedule hschedule
    by_cases hx' : schedule.workflowId = x
    · have hne : schedule.id ≠ scheduleId := fun heq => hx (hx'.symm.trans (h schedule hschedule heq))
      simp [hne]
    · simp [hx']
  rw [Database.view, hschedules]
  rfl

theorem deleteSchedules_untouched {scheduleIds : List Uuid} : ∀ {db : Database},
    (∀ scheduleId ∈ scheduleIds, ∀ schedule ∈ db.schedules, schedule.id = scheduleId → schedule.workflowId = id) →
      Untouched id db (scheduleIds.foldl Database.deleteSchedule db) := by
  induction scheduleIds with
  | nil => exact fun _ => .of_view (fun _ _ => rfl) rfl rfl rfl
  | cons scheduleId scheduleIds ih =>
    intro db h
    refine (deleteSchedule_untouched (h scheduleId List.mem_cons_self)).trans (ih ?_)
    intro other hother schedule hschedule
    exact h other (List.mem_cons_of_mem _ hother) schedule (List.mem_filter.mp hschedule).1

theorem updateSchedules_untouched {uuid4 : ℕ → Uuid}
    {remoteSchedules : Option (List RemoteWorkflowSchedule)}
    (h : updateSchedules P uuid4 id remoteSchedules db = .ok db') : Untouched id db db' := by
  refine (deleteSchedules_untouched ?_).trans (createSchedules_untouched h)
  intro scheduleId hid schedule hschedule heq
  -- ids are unique, so the schedule of this id is the one that was listed
  obtain ⟨listed,hlisted,hlistedId⟩ := List.mem_map.mp hid
  obtain ⟨hmem,hworkflow⟩ := List.mem_filter.mp hlisted
  have hsame : schedule = listed := List.inj_on_of_nodup_map db.schedule_ids hschedule hmem (heq.trans hlistedId.symm)
  rw [hsame]
  exact of_decide_eq_true hworkflow

theorem insertWorkflow_untouched {draws : Draws} {remote : RemoteWorkflowDefinition}
    {folderId : Option Uuid} (h : insertWorkflow P draws remote folderId db = .ok db') :
    Untouched remote.id db db' := by
  unfold insertWorkflow at h
  split at h
  · cases h
  · obtain ⟨row,hrow,h⟩ := bind_eq_ok.mp h
    have hrowId : row.id = remote.id := by
      obtain ⟨actions,-,hactions⟩ := bind_eq_ok.mp (liftError_eq_ok.mp hrow)
      rw [← Except.ok.inj hactions]
    dsimp only at h
    split at h
    · cases h
    · cases h
      refine .of_view (fun x hx => ?_) rfl rfl rfl
      apply view_ext
      · apply filter_append_of_ne
        rw [hrowId]
        exact decide_eq_false hx.symm
      · exact filter_append_of_ne (decide_eq_false hx.symm)
      · rfl
      · rfl
      · rfl
      · exact filter_append_of_ne (decide_eq_false hx.symm)

/-- What the creation of tags leaves, and what it adds. -/
structure TagsAdded (uuid4 : String → Uuid) (id : Uuid) (db db' : Database) : Prop where
  others : OthersKept id db db'
  shared : SharedKept db db'
  drawn : ∀ tag ∈ db'.tags, tag ∈ db.tags ∨ ∃ name, tag.id = uuid4 name

theorem TagsAdded.trans {uuid4 : String → Uuid} (h : TagsAdded uuid4 id db db') (h' : TagsAdded uuid4 id db' db'') :
    TagsAdded uuid4 id db db'' := by
  refine ⟨h.others.trans h'.others,h.shared.trans h'.shared,?_⟩
  intro tag htag
  rcases h'.drawn tag htag with htag | hname
  · exact h.drawn tag htag
  · exact .inr hname

theorem findOrCreateTag_added {uuid4 : String → Uuid} {name : String} {tag : Tag}
    (h : findOrCreateTag uuid4 name db = .ok (tag,db')) : TagsAdded uuid4 id db db' := by
  unfold findOrCreateTag at h
  split at h
  · cases h
    exact ⟨fun _ _ => rfl,⟨fun _ h => h,fun _ h => h⟩,fun _ h => .inl h⟩
  · dsimp only at h
    split at h
    · cases h
    · cases h
      refine ⟨fun _ _ => rfl,⟨fun _ h => List.mem_append_left _ h,fun _ h => h⟩,?_⟩
      intro tag htag
      rcases List.mem_append.mp htag with htag | htag
      · exact .inl htag
      · obtain rfl := List.mem_singleton.mp htag
        exact .inr ⟨name,rfl⟩

theorem addWorkflowTag_added {uuid4 : String → Uuid} {tagId : Uuid} (h : addWorkflowTag id tagId db = .ok db') :
    TagsAdded uuid4 id db db' := by
  unfold addWorkflowTag at h
  split at h
  · cases h
  · split at h
    · cases h
      refine ⟨fun x hx => ?_,⟨fun _ h => h,fun _ h => h⟩,fun _ h => .inl h⟩
      have htags : (db.workflowTags ++ [(tagId,id)]).filter (·.2 = x) = db.workflowTags.filter (·.2 = x) :=
        filter_append_of_ne (decide_eq_false hx.symm)
      simp only [Database.view, Database.tagsOf, htags]
      rfl
    · cases h

theorem createTags_added {uuid4 : String → Uuid} {remoteTags : Option (List RemoteWorkflowTag)}
    (h : createTags uuid4 id remoteTags db = .ok db') : TagsAdded uuid4 id db db' := by
  rw [createTags] at h
  refine foldlM_invariant (P := TagsAdded uuid4 id db) ?_
    ⟨fun _ _ => rfl,⟨fun _ h => h,fun _ h => h⟩,fun _ h => .inl h⟩ h
  intro middle tag next hmiddle hnext
  obtain ⟨⟨found,created⟩,hfound,hnext⟩ := bind_eq_ok.mp hnext
  exact hmiddle.trans ((findOrCreateTag_added hfound).trans (addWorkflowTag_added hnext))

theorem deleteTags_eq (tagIds : List Uuid) : ∀ db : Database,
    let deleted := tagIds.foldl Database.deleteTag db
    deleted.tags = db.tags.filter (·.id ∉ tagIds) ∧ deleted.space = db.space ∧
      ∀ x, deleted.view x = {db.view x with tags := (db.tagsOf x).filter (· ∉ tagIds)} := by
  induction tagIds with
  | nil =>
    intro db
    refine ⟨by simp,rfl,fun x => ?_⟩
    simp [Database.view]
  | cons tagId tagIds ih =>
    intro db
    obtain ⟨htags,hspace,hview⟩ := ih (db.deleteTag tagId)
    refine ⟨?_,hspace,fun x => ?_⟩
    · rw [List.foldl_cons, htags, Database.deleteTag, List.filter_filter]
      apply List.filter_congr
      intro tag _
      by_cases heq : tag.id = tagId <;> simp [heq]
    · have hof : (db.deleteTag tagId).tagsOf x = (db.tagsOf x).filter (· ≠ tagId) := by
        rw [Database.tagsOf, Database.tagsOf, Database.deleteTag, List.filter_map, List.filter_filter, List.filter_filter]
        congr 1
        apply List.filter_congr
        intro a _
        simp [Bool.and_comm]
      rw [List.foldl_cons, hview x, hof, List.filter_filter]
      have hkeep : (db.tagsOf x).filter (fun a => decide (a ∉ tagIds) && decide (a ≠ tagId)) =
          (db.tagsOf x).filter (· ∉ tagId :: tagIds) := by
        apply List.filter_congr
        intro a _
        by_cases heq : a = tagId <;> simp [heq]
      rw [hkeep]
      rfl

end Frames

section Imports
variable {P : ImportPackages} {draws : Draws} {remote : RemoteWorkflowDefinition} {db db' : Database}

theorem updateExistingWorkflow_parts (h : updateExistingWorkflow P draws remote db = .ok db') :
    ∃ middle, Untouched remote.id db middle ∧ updateTags draws.tag remote.id remote.tags middle = .ok db' := by
  unfold updateExistingWorkflow at h
  dsimp only at h
  split at h
  · cases h
  · obtain ⟨actions,-,h⟩ := bind_eq_ok.mp h
    obtain ⟨placed,hplaced,h⟩ := bind_eq_ok.mp h
    obtain ⟨scheduled,hscheduled,h⟩ := bind_eq_ok.mp h
    obtain ⟨hooked,hhooked,h⟩ := bind_eq_ok.mp h
    refine ⟨_,?_,h⟩
    refine (createWorkflowDefinition_untouched _ _).trans <| (updateRecord_untouched ?_).trans <|
      (updateFolderOf_untouched hplaced).trans <| (updateSchedules_untouched hscheduled).trans <|
      updateWebhook_untouched hhooked
    exact fun _ => rfl

theorem createNewWorkflow_parts (h : createNewWorkflow P draws remote db = .ok db') :
    ∃ middle, Untouched remote.id db middle ∧ createTags draws.tag remote.id remote.tags middle = .ok db' := by
  unfold createNewWorkflow at h
  obtain ⟨⟨folderId,placed⟩,hplaced,h⟩ := bind_eq_ok.mp h
  obtain ⟨inserted,hinserted,h⟩ := bind_eq_ok.mp h
  obtain ⟨scheduled,hscheduled,h⟩ := bind_eq_ok.mp h
  obtain ⟨hooked,hhooked,h⟩ := bind_eq_ok.mp h
  refine ⟨_,?_,h⟩
  refine (ensureFolder_untouched hplaced).trans <| (insertWorkflow_untouched hinserted).trans <|
    (createWorkflowDefinition_untouched _ _).trans <| (updateRecord_untouched ?_).trans <|
    (createSchedules_untouched hscheduled).trans <| updateWebhook_untouched hhooked
  exact fun _ => rfl

/-- The tags of a workflow that is there already. -/
def tagsToDelete (db : Database) (id : Uuid) : List Uuid :=
  if (db.getWorkflow id).isSome then db.tagsOf id else []

section
variable (h : importSingleWorkflow P draws remote db = .ok db')
include h

theorem importSingleWorkflow_parts :
    ∃ middle, Untouched remote.id db middle ∧
      TagsAdded draws.tag remote.id ((tagsToDelete db remote.id).foldl Database.deleteTag middle) db' := by
  unfold importSingleWorkflow at h
  split at h
  · rename_i found hfound
    obtain ⟨middle,hmiddle,htags⟩ := updateExistingWorkflow_parts h
    refine ⟨middle,hmiddle,?_⟩
    have hof : middle.tagsOf remote.id = db.tagsOf remote.id := by
      rw [Database.tagsOf, Database.tagsOf, hmiddle.workflowTags]
    rw [tagsToDelete, hfound, if_pos Option.isSome_some, ← hof]
    exact createTags_added htags
  · rename_i hnone
    obtain ⟨middle,hmiddle,htags⟩ := createNewWorkflow_parts h
    refine ⟨middle,hmiddle,?_⟩
    rw [tagsToDelete, hnone, if_neg (by decide)]
    exact createTags_added htags

theorem othersKept_iff :
    OthersKept remote.id db db' ↔
      ∀ tagId ∈ tagsToDelete db remote.id, ∀ x, x ≠ remote.id → tagId ∉ db.tagsOf x := by
  obtain ⟨middle,hmiddle,hadded⟩ := importSingleWorkflow_parts h
  obtain ⟨-,-,hview⟩ := deleteTags_eq (tagsToDelete db remote.id) middle
  have hother : ∀ x, x ≠ remote.id →
      db'.view x = {db.view x with tags := (db.tagsOf x).filter (· ∉ tagsToDelete db remote.id)} := by
    intro x hx
    have hof : middle.tagsOf x = db.tagsOf x := by rw [Database.tagsOf, Database.tagsOf, hmiddle.workflowTags]
    rw [hadded.others x hx, hview x, hmiddle.others x hx, hof]
  constructor
  · intro hkept tagId htag x hx hmem
    have htags : (db.tagsOf x).filter (· ∉ tagsToDelete db remote.id) = db.tagsOf x :=
      congrArg WorkflowView.tags ((hother x hx).symm.trans (hkept x hx))
    have hfiltered : tagId ∈ (db.tagsOf x).filter (· ∉ tagsToDelete db remote.id) := by
      rw [htags]
      exact hmem
    exact of_decide_eq_true (List.mem_filter.mp hfiltered).2 htag
  · intro hunshared x hx
    rw [hother x hx, List.filter_eq_self.mpr]
    · rfl
    · intro tagId hmem
      exact decide_eq_true fun htag => hunshared tagId htag x hx hmem

theorem sharedKept_of_none (hnone : tagsToDelete db remote.id = []) : SharedKept db db' := by
  obtain ⟨middle,hmiddle,hadded⟩ := importSingleWorkflow_parts h
  rw [hnone] at hadded
  exact hmiddle.shared.trans hadded.shared

end

theorem sharedKept_iff (hfresh : ∀ name, draws.tag name ∉ db.tags.map Tag.id)
    (h : importSingleWorkflow P draws remote db = .ok db') :
    SharedKept db db' ↔ tagsToDelete db remote.id = [] := by
  obtain ⟨middle,hmiddle,hadded⟩ := importSingleWorkflow_parts h
  obtain ⟨htags,hspace,-⟩ := deleteTags_eq (tagsToDelete db remote.id) middle
  constructor
  · rintro ⟨hkept,-⟩
    apply List.eq_nil_iff_forall_not_mem.mpr
    intro tagId htag
    have hof : tagId ∈ db.tagsOf remote.id := by
      rw [tagsToDelete] at htag
      split at htag
      · exact htag
      · cases htag
    obtain ⟨a,ha,rfl⟩ := List.mem_map.mp hof
    obtain ⟨tag,hmem,hid⟩ := List.mem_map.mp (db.tags_exist a (List.mem_filter.mp ha).1)
    -- the row of the tag was deleted, and no new row has its id
    rcases hadded.drawn tag (hkept tag hmem) with hleft | ⟨name,hname⟩
    · rw [htags] at hleft
      exact of_decide_eq_true (List.mem_filter.mp hleft).2 (hid ▸ htag)
    · exact hfresh name (hname ▸ List.mem_map_of_mem hmem)
  · exact sharedKept_of_none h

theorem importWorkflowsAtomic_success (hsuccess : (importWorkflowsAtomic P [(draws,remote)] db).1.success = true) :
    importSingleWorkflow P draws remote db = .ok (importWorkflowsAtomic P [(draws,remote)] db).2 := by
  unfold importWorkflowsAtomic at hsuccess ⊢
  rw [if_neg (by simp)] at hsuccess ⊢
  dsimp only at hsuccess ⊢
  split at hsuccess
  · cases hsuccess
  · rename_i hdiagnostics
    rw [if_neg hdiagnostics]
    split at hsuccess
    · rename_i imported himported
      obtain ⟨db',hdb',hrest⟩ := bind_eq_ok.mp himported
      cases hrest
      exact hdb'
    · cases hsuccess

/-- A completed import changes nothing but its workflow exactly when it deletes no tag, and nothing of the other workflows
exactly when it deletes none of theirs. -/
theorem import_frame_iff (hfresh : ∀ name, draws.tag name ∉ db.tags.map Tag.id)
    (hsuccess : (importWorkflowsAtomic P [(draws,remote)] db).1.success = true) :
    let db' := (importWorkflowsAtomic P [(draws,remote)] db).2
    (OthersKept remote.id db db' ∧ SharedKept db db' ↔ tagsToDelete db remote.id = []) ∧
      (OthersKept remote.id db db' ↔
        ∀ tagId ∈ tagsToDelete db remote.id, ∀ x, x ≠ remote.id → tagId ∉ db.tagsOf x) := by
  have himported := importWorkflowsAtomic_success hsuccess
  refine ⟨?_,othersKept_iff himported⟩
  rw [othersKept_iff himported, sharedKept_iff hfresh himported]
  constructor
  · exact fun h => h.2
  · intro hnone
    refine ⟨?_,hnone⟩
    rw [hnone]
    exact fun tagId htag => absurd htag List.not_mem_nil

/-- A run of imports that find no tags keeps every workflow that is not imported. -/
theorem importAll_kept {remotes : List (Draws × RemoteWorkflowDefinition)} : ∀ {db db' : Database},
    importAll P remotes db = .ok db' →
    (∀ done draws remote rest middle, remotes = done ++ (draws,remote) :: rest → importAll P done db = .ok middle →
      tagsToDelete middle remote.id = []) →
    (∀ x, x ∉ remotes.map (·.2.id) → db'.view x = db.view x) ∧ SharedKept db db' := by
  induction remotes with
  | nil =>
    intro db db' h _
    cases h
    exact ⟨fun _ _ => rfl,fun _ h => h,fun _ h => h⟩
  | cons first remotes ih =>
    intro db db' h hclean
    obtain ⟨middle,hmiddle,hrest⟩ := bind_eq_ok.mp h
    have hnone := hclean [] first.1 first.2 remotes db rfl rfl
    have hstep := (othersKept_iff hmiddle).mpr (by
      rw [hnone]
      exact fun tagId htag => absurd htag List.not_mem_nil)
    obtain ⟨hviews,hshared⟩ := ih hrest fun done draws remote rest last hsplit hlast =>
      hclean (first :: done) draws remote rest last (by rw [hsplit]; rfl) (bind_eq_ok.mpr ⟨middle,hmiddle,hlast⟩)
    refine ⟨?_,(sharedKept_of_none hmiddle hnone).trans hshared⟩
    intro x hx
    obtain ⟨hne,hx⟩ := not_or.mp (fun h => hx (List.mem_cons.mpr h))
    rw [hviews x hx, hstep x hne]

/-- Packages for actions that have no templates and no schedules. -/
def plainPackages : ImportPackages where
  slugify s := s
  dump _ := ""
  safeLoad _ := none
  parsesDate _ := false
  actionRefs _ := []
  isValidCron _ := false
  resolvesLock _ := true
  repr s := s
  describe _ := ""

def plainDraws : Draws where
  action _ := .ofDigit 10
  folder _ := .ofDigit 11
  tag _ := .ofDigit 12
  schedule _ := .ofDigit 13

def plainDSL : DSLInput where
  title := "t"
  description := ""
  actions := [{ref := "a", action := "core.noop"}]
  config := ⟨"default",0⟩

def plainRecord (id : Uuid) : WorkflowRecord where
  row :=
    {id := id
     title := "t"
     description := ""
     returns := none
     config := .none
     expects := none
     actions := []}
  workflowAlias := none
  version := none

/-- A workspace whose workflows 1 and 2 have the tags of a list in common. -/
def sharingDatabase (tags : List Tag) : Database where
  space := ⟨[],[⟨.ofDigit 1,none⟩,⟨.ofDigit 2,none⟩],List.nodup_nil,List.nodup_nil⟩
  workflows := [plainRecord (.ofDigit 1),plainRecord (.ofDigit 2)]
  definitions := []
  tags := tags
  workflowTags := tags.flatMap fun tag => [(tag.id,.ofDigit 1),(tag.id,.ofDigit 2)]
  schedules := []
  webhooks := []
  elsewhere := []
  schedule_ids := List.nodup_nil
  tags_exist := by
    intro a ha
    obtain ⟨tag,htag,ha⟩ := List.mem_flatMap.mp ha
    have hid : a.1 = tag.id := by
      rcases List.mem_pair.mp ha with rfl | rfl <;> rfl
    rw [hid]
    exact List.mem_map_of_mem htag

/-- Workflow 1, as it is published with one tag. -/
def publishedPlain : RemoteWorkflowDefinition where
  id := .ofDigit 1
  workflowAlias := none
  folderPath := none
  tags := some [⟨"soc"⟩]
  schedules := none
  webhook := none
  definition := plainDSL

theorem import_frame_untagged :
    OthersKept (.ofDigit 1) (sharingDatabase [])
        (importWorkflowsAtomic plainPackages [(plainDraws,publishedPlain)] (sharingDatabase [])).2 ∧
      SharedKept (sharingDatabase [])
        (importWorkflowsAtomic plainPackages [(plainDraws,publishedPlain)] (sharingDatabase [])).2 :=
  (@import_frame_iff plainPackages plainDraws publishedPlain (sharingDatabase []) (fun _ => List.not_mem_nil) rfl).1.mpr rfl

/-- A workflow that has no tags, and one that is new. -/
def twoImports : List (Draws × RemoteWorkflowDefinition) :=
  [(plainDraws,publishedPlain),(plainDraws,{ publishedPlain with id := .ofDigit 4 })]

theorem importAll_kept_untagged : ∃ db', importAll plainPackages twoImports (sharingDatabase []) = .ok db' ∧
    db'.view (.ofDigit 2) = (sharingDatabase []).view (.ofDigit 2) ∧ SharedKept (sharingDatabase []) db' := by
  have himport : importAll plainPackages twoImports (sharingDatabase []) = .ok _ := rfl
  obtain ⟨hviews,hshared⟩ := importAll_kept himport (by
    intro done draws remote rest middle hsplit hmiddle
    match done with
    | [] =>
      cases hsplit
      cases hmiddle
      rfl
    | [first] =>
      cases hsplit
      cases hmiddle
      rfl
    | first :: second :: done =>
      have hlength := congrArg List.length hsplit
      simp [twoImports] at hlength)
  exact ⟨_,himport,hviews _ (by decide),hshared⟩

/-- Importing workflow 1 with the tag that it has takes the tag from workflow 2. -/
theorem shared_tag_taken :
    (importWorkflowsAtomic plainPackages [(plainDraws,publishedPlain)]
        (sharingDatabase [⟨.ofDigit 3,"soc","soc",none⟩])).1.success = true ∧
      ¬ OthersKept (.ofDigit 1) (sharingDatabase [⟨.ofDigit 3,"soc","soc",none⟩])
        (importWorkflowsAtomic plainPackages [(plainDraws,publishedPlain)]
          (sharingDatabase [⟨.ofDigit 3,"soc","soc",none⟩])).2 := by
  refine ⟨rfl,?_⟩
  intro hkept
  have htags := congrArg WorkflowView.tags (hkept (.ofDigit 2) (by decide))
  have hbefore : (sharingDatabase [⟨.ofDigit 3,"soc","soc",none⟩]).tagsOf (.ofDigit 2) = [.ofDigit 3] := rfl
  have hafter : (importWorkflowsAtomic plainPackages [(plainDraws,publishedPlain)]
      (sharingDatabase [⟨.ofDigit 3,"soc","soc",none⟩])).2.tagsOf (.ofDigit 2) = [] := rfl
  rw [Database.view, Database.view] at htags
  simp only [hbefore, hafter] at htags
  cases htags

end Imports
end Sync
end Allama
