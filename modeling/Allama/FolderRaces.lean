import Allama.FolderTree

/-! Folder operations of concurrent requests, whose checks and writes interleave. -/
namespace Allama
open Checked ReadCommitted

/-- Any number of clients `ι` with operations on the folders of one workspace. -/
abbrev FolderClients (ι : Type) := ReadCommitted.System ι Workspace FolderOperation FolderError

/-- An operation fails for what it asks last: the new parent is not there, or the folder has workflows. -/
def RefusedOn (s : Workspace) : FolderOperation → Prop
  | .move _ (some parentId) => s.getFolder parentId = none
  | .delete id false => s.hasWorkflows id = true
  | _ => False

section
variable {s : Workspace}

theorem outcome_keeps (h : Rooted s.folders) {op : FolderOperation}
    (hclean : CleanOperationOn s op) : Rooted (op.txn.outcome s).folders := by
  unfold Txn.outcome
  cases hs : op.txn.exec s with
  | error e => exact h
  | ok t => exact txn_keeps h hclean hs

theorem outcome_refused {op : FolderOperation} (h : RefusedOn s op) : op.txn.outcome s = s := by
  unfold Txn.outcome
  cases op with
  | create id name parentPath => exact h.elim
  | rename id newName => exact h.elim
  | move id newParentId =>
    cases newParentId with
    | none => exact h.elim
    | some parentId =>
      have hparent : s.getFolder parentId = none := h
      cases hf : s.getFolder id <;> simp [FolderOperation.txn, moveFolder, Txn.exec, hf, hparent, Except.toOption]
  | delete id recursive =>
    cases recursive with
    | true => exact h.elim
    | false =>
      have hworkflows : s.hasWorkflows id = true := h
      cases hf : s.getFolder id with
      | none => simp [FolderOperation.txn, deleteFolder, Txn.exec, hf, Except.toOption]
      | some folder =>
        by_cases hroot : folder.path = slash <;>
          simp [FolderOperation.txn, deleteFolder, Txn.exec, hf, hroot, hworkflows, Except.toOption]

/-- The unique constraint backs the check of `create_folder`. -/
theorem insertFolder_occupied {folder : Folder} (h : s.folderPathExists folder.path = true) :
    insertFolder folder s = .error .integrityError := by
  unfold insertFolder
  apply dif_neg
  rintro ⟨-,hpaths⟩
  obtain ⟨g,hg,hgp⟩ := List.any_eq_true.mp h
  rw [List.map_append, List.nodup_append] at hpaths
  exact hpaths.2.2 g.path (List.mem_map_of_mem hg) folder.path (by simp) (by simpa using hgp)

/-- It backs that of `move_folder`, too: the folder in the way is not below the one that moves, and stays. -/
theorem relocate_occupied (h : Rooted s.folders) {folder : Folder} (hfolder : folder ∈ s.folders)
    {path : Text} {loaded : List Folder} (hloaded : ∀ g ∈ loaded, g ∈ s.folders)
    (hpath : path = slash ∨ ¬ folder.path <+: path) (hne : childPath path folder.name ≠ folder.path)
    (hclean : s.PatternClean folder) (hoccupied : s.folderPathExists (childPath path folder.name) = true)
    {s' : Workspace} :
    flushUpdates (relocate folder {folder with path := childPath path folder.name} loaded
      (s.getDescendants folder.path)) s ≠ .ok s' := by
  intro hflush
  have hslash := h.slash_suffix hfolder
  have hrows := flush_relocate hfolder (by rfl) hslash hloaded hflush
  rw [(moved_eq_movedSubtree_iff hfolder hslash).mpr (.inr hclean)] at hrows
  obtain ⟨g,hg,hgp⟩ := List.any_eq_true.mp hoccupied
  have hgp : g.path = childPath path folder.name := by simpa using hgp
  have hgf : g ≠ folder := fun he => hne (by rw [← hgp, he])
  have houtside : ¬ folder.path <+: g.path := by
    rw [hgp, childPath_eq]
    intro hprefix
    have hbelow := prefix_parent (h folder hfolder).1 hslash hprefix (by rw [← childPath_eq]; exact hne.symm)
    rcases hpath with rfl | hpath
    · have hshort := hbelow.length_le
      have htwo := h.two_le_length hfolder
      rw [slash, List.length_singleton] at hshort
      omega
    · exact hpath hbelow
  have hself : folder.movedSubtree {folder with path := childPath path folder.name} folder =
      {folder with path := childPath path folder.name} := if_pos rfl
  have hstays : folder.movedSubtree {folder with path := childPath path folder.name} g = g := by
    rw [Folder.movedSubtree, if_neg fun he => hgf (Workspace.eq_of_id hg hfolder he), if_neg houtside]
  -- both rows are at the new path
  have hnodup := s'.paths_nodup
  rw [hrows, List.map_map] at hnodup
  apply hgf
  apply List.inj_on_of_nodup_map hnodup hg hfolder
  simp only [Function.comp_apply, hself, hstays, hgp]

theorem createUnder_backed (id : Uuid) (name parentPath : Text) (good : Workspace → Prop) :
    (createUnder id name parentPath).Backed good := by
  intro pathExists
  cases pathExists with
  | true => exact .inl trivial
  | false =>
    refine .inr ⟨trivial,trivial,?_⟩
    intro s _
    dsimp only
    cases hq : s.folderPathExists (childPath (withSlash parentPath) name) with
    | false => rfl
    | true =>
      rw [if_neg Bool.false_ne_true, if_pos rfl]
      have hfails := @insertFolder_occupied s ⟨id,name,childPath (withSlash parentPath) name⟩ hq
      change (insertFolder _ s).toOption.getD s = s
      rw [hfails]
      rfl

theorem moveUnder_backed {folder : Folder} {path : Text} {loaded : List Folder} {good : Workspace → Prop}
    (hgood : ∀ s, good s → Rooted s.folders ∧ folder ∈ s.folders ∧ (∀ g ∈ loaded, g ∈ s.folders) ∧
      (path = slash ∨ ¬ folder.path <+: path) ∧
      (childPath path folder.name = folder.path ∨ s.PatternClean folder)) :
    (moveUnder folder path loaded).Backed good := by
  unfold moveUnder
  dsimp only
  split
  · rename_i hne
    intro pathExists
    cases pathExists with
    | true => exact .inl trivial
    | false =>
      refine .inr ⟨fun _ => trivial,fun _ => trivial,?_⟩
      intro s hs
      obtain ⟨hrooted,hfolder,hloaded,hpath,hclean⟩ := hgood s hs
      dsimp only
      cases hq : s.folderPathExists (childPath path folder.name) with
      | false => rfl
      | true =>
        rw [if_neg Bool.false_ne_true, if_pos rfl]
        change (flushUpdates (relocate folder {folder with path := childPath path folder.name} loaded
          (s.getDescendants folder.path)) s).toOption.getD s = s
        cases hflush : flushUpdates (relocate folder {folder with path := childPath path folder.name} loaded
            (s.getDescendants folder.path)) s with
        | error e => rfl
        | ok s' => exact absurd hflush (relocate_occupied hrooted hfolder hloaded hpath hne
            (hclean.resolve_left hne) hq)
  · exact fun _ => trivial

theorem moveFolder_backed (id : Uuid) (newParentId : Option Uuid) :
    (moveFolder id newParentId).Backed fun s =>
      Rooted s.folders ∧ CleanOperationOn s (.move id newParentId) := by
  intro found
  cases found with
  | none => trivial
  | some folder =>
    cases newParentId with
    | none =>
      apply moveUnder_backed
      rintro s ⟨⟨hrooted,hclean⟩,hfolder⟩
      exact ⟨hrooted,(Workspace.getFolder_some hfolder).1,List.forall_mem_nil _,.inl rfl,
        hclean folder slash [] hfolder rfl⟩
    | some parentId =>
      intro foundParent
      cases foundParent with
      | none => trivial
      | some newParent =>
        dsimp only
        split
        · trivial
        · split
          · trivial
          · rename_i hprefix
            apply moveUnder_backed
            rintro s ⟨⟨⟨hrooted,hclean⟩,hfolder⟩,hparent⟩
            refine ⟨hrooted,(Workspace.getFolder_some hfolder).1,?_,.inr ?_,?_⟩
            · intro g hg
              obtain rfl := List.mem_singleton.mp hg
              exact (Workspace.getFolder_some hparent).1
            · simpa only [List.isPrefixOf_iff_prefix] using hprefix
            · refine hclean folder newParent.path [newParent] hfolder ?_
              simp only [Workspace.newParent, hparent, Option.map_some]

theorem operation_backed (op : FolderOperation) :
    op.txn.Backed fun s => Rooted s.folders ∧ CleanOperationOn s op := by
  cases op with
  | create id name parentPath =>
    unfold FolderOperation.txn createFolder
    dsimp only
    split
    · trivial
    · split
      · intro parentExists
        cases parentExists with
        | true => exact createUnder_backed id name parentPath _
        | false => trivial
      · exact createUnder_backed id name parentPath _
  | rename id newName =>
    unfold FolderOperation.txn renameFolder
    dsimp only
    split
    · trivial
    · intro found
      cases found with
      | none => trivial
      | some folder =>
        dsimp only
        split
        · exact fun _ => .inr ⟨fun _ => trivial,fun _ => trivial,fun _ _ => rfl⟩
        · exact fun _ => trivial
  | move id newParentId => exact moveFolder_backed id newParentId
  | delete id recursive =>
    intro found
    cases found with
    | none => trivial
    | some folder =>
      dsimp only
      split
      · trivial
      · cases recursive with
        | true => exact fun _ => trivial
        | false =>
          intro hasChildren hasWorkflows
          cases hasChildren <;> cases hasWorkflows <;> trivial

end

/-- The operations keep the folders rooted where the patterns of their paths are clean. -/
def folderDiscipline : Discipline FolderOperation.txn where
  Invariant := fun s => Rooted s.folders
  Clean := fun op s => CleanOperationOn s op
  Refused := fun op s => RefusedOn s op
  keeps := fun _ _ h hclean => outcome_keeps h hclean
  refuses := fun _ _ h => outcome_refused h
  backed := operation_backed

/-- Where the operations end on what they have read of their folder, its new parent and its descendants,
the folders are those of the operations one after the other in some order, and form a tree. -/
theorem races_serial {ι : Type} [DecidableEq ι] {first : Workspace} (h0 : Rooted first.folders)
    {st : FolderClients ι} (hrun : Runs.Reaches (ReadCommitted.step FolderOperation.txn)
      (Fresh folderDiscipline) (ReadCommitted.System.init ι first) st) :
    (∃ order, order.Perm st.log ∧ st.state = serial FolderOperation.txn first order) ∧
      FolderTree st.state.folders := by
  have hconsistent := consistent_of_fresh (d := folderDiscipline) h0 hrun
  obtain ⟨order,horder⟩ := hconsistent.ordered
  exact ⟨⟨order,horder.perm,horder.state.symm⟩,
    Rooted.folderTree hconsistent.invariant st.state.paths_nodup⟩

/-- A workspace with the folder `a`. -/
def sampleRoot : Workspace where
  folders := [⟨.ofDigit 1,"a".toList,"/a/".toList⟩]
  workflows := []
  ids_nodup := by decide
  paths_nodup := by decide

def sampleCreate : FolderOperation := .create (.ofDigit 2) "x".toList "/a/".toList

def sampleRename : FolderOperation := .rename (.ofDigit 1) "b".toList

/-- The folders `a` and `b`, in the root. -/
def sampleRoots : Workspace where
  folders := [⟨.ofDigit 1,"a".toList,"/a/".toList⟩,⟨.ofDigit 2,"b".toList,"/b/".toList⟩]
  workflows := []
  ids_nodup := by decide
  paths_nodup := by decide

/-- Two clients create `/a/x/` at a time; then one renames `/a/` to `/b/` while the other deletes `/b/`. -/
def sampleTurns : List (ReadCommitted.Event Bool FolderOperation) :=
  [.start true (.create (.ofDigit 3) "x".toList "/a/".toList),.read true,
    .start false (.create (.ofDigit 4) "x".toList "/a/".toList),.read false,.read true,.read false,
    .flush true,.flush false,.commit true,.commit false,
    .start true sampleRename,.read true,.read true,.start false (.delete (.ofDigit 2) false),.read false,
    .read false,.read false,.flush false,.commit false,.read true,.flush true,.commit true]

/-- What a client has seen is still so when it reads on and when it commits, and all paths are plain. -/
def quiet (st : FolderClients Bool) : ReadCommitted.Event Bool FolderOperation → Bool
  | .read i => (st.clients i).seen.all fun p => p st.state
  | .commit i => (st.clients i).seen.all (fun p => p st.state) &&
      st.state.folders.all fun g => decide (LikePatterns.Plain g.path)
  | _ => true

theorem clean_of_plain {s : Workspace} (h : ∀ g ∈ s.folders, LikePatterns.Plain g.path)
    (op : FolderOperation) : CleanOperationOn s op := by
  have hclean : ∀ id folder, s.getFolder id = some folder → s.PatternClean folder :=
    fun id folder hf => patternClean_of_plain (h folder (Workspace.getFolder_some hf).1)
  cases op with
  | create id name parentPath => trivial
  | rename id newName => exact fun folder hf => .inr (hclean id folder hf)
  | move id newParentId => exact fun folder _ _ hf _ => .inr (hclean id folder hf)
  | delete id recursive => exact fun folder hf g hg hne => (hclean id folder hf g hg hne).1

theorem fresh_of_quiet {st : FolderClients Bool} {event : ReadCommitted.Event Bool FolderOperation}
    (h : quiet st event = true) : Fresh folderDiscipline st event := by
  cases event with
  | read i =>
    intro r rest seen next new hi _ _ _
    simp only [quiet, hi, Client.seen, List.all_eq_true] at h
    exact .inl h
  | commit i =>
    intro r flush seen hi
    simp only [quiet, hi, Client.seen, Bool.and_eq_true, List.all_eq_true, decide_eq_true_eq] at h
    exact ⟨h.1,clean_of_plain h.2 r⟩
  | start i r => trivial
  | fail i => trivial
  | flush i => trivial

theorem races_serial_create : ∃ st : FolderClients Bool,
    Runs.Reaches (ReadCommitted.step FolderOperation.txn) (Fresh folderDiscipline)
      (ReadCommitted.System.init Bool sampleRoots) st ∧ st.log.length = 4 ∧
    st.state.folders = [⟨.ofDigit 1,"b".toList,"/b/".toList⟩,⟨.ofDigit 3,"x".toList,"/b/x/".toList⟩] ∧
    (∃ order, order.Perm st.log ∧ st.state = serial FolderOperation.txn sampleRoots order) ∧
    FolderTree st.state.folders := by
  have h0 : Rooted sampleRoots.folders := by
    intro f hf
    simp only [sampleRoots, List.mem_cons, List.not_mem_nil, or_false] at hf
    rcases hf with rfl | rfl <;> exact ⟨by decide,slash,by decide,.inl rfl⟩
  have hrun : (Runs.followOk (ReadCommitted.step FolderOperation.txn) quiet
      (ReadCommitted.System.init Bool sampleRoots) sampleTurns).map
        (fun st => (st.log.length,st.state.folders)) =
      some (4,[⟨.ofDigit 1,"b".toList,"/b/".toList⟩,⟨.ofDigit 3,"x".toList,"/b/x/".toList⟩]) := by
    decide
  obtain ⟨st,hst,hrows⟩ := Runs.reaches_of_observed hrun
  obtain ⟨hlog,hfolders⟩ := Prod.mk.inj hrows
  exact ⟨st,hst.weaken fun _ _ h => fresh_of_quiet h,hlog,hfolders,
    races_serial h0 (hst.weaken fun _ _ h => fresh_of_quiet h)⟩

/-- `/a/x/` is created while `/a/` is renamed. -/
def sampleRace : List (ReadCommitted.Event Bool FolderOperation) :=
  [.start true sampleCreate,.read true,.read true,.start false sampleRename,.read false,.read false,
    .read false,.flush true,.flush false,.commit false,.commit true]

/-- The folder that is created in a renamed folder has no parent, which no serial order leaves. -/
theorem create_races_rename : ∃ st : FolderClients Bool,
    Runs.Reachable (ReadCommitted.step FolderOperation.txn)
      (ReadCommitted.System.init Bool sampleRoot) st ∧ ¬ FolderTree st.state.folders ∧
    ∀ log ∈ [[sampleCreate,sampleRename],[sampleRename,sampleCreate]],
      st.state.folders ≠ (serial FolderOperation.txn sampleRoot log).folders := by
  have hrun : (Runs.follow (ReadCommitted.step FolderOperation.txn)
      (ReadCommitted.System.init Bool sampleRoot) sampleRace).map (fun st => st.state.folders) =
        some [⟨.ofDigit 1,"b".toList,"/b/".toList⟩,⟨.ofDigit 2,"x".toList,"/a/x/".toList⟩] := by
    decide
  obtain ⟨st,hst,hrows⟩ := Runs.reachable_of_observed hrun
  refine ⟨st,hst,?_,?_⟩
  · intro h
    rw [hrows] at h
    obtain ⟨g,hg,hpath⟩ := h.ancestors _ (List.mem_cons_of_mem _ (List.mem_singleton_self _))
      "/a".toList (by decide) (by decide) (by decide)
    revert g
    decide
  · rw [hrows]
    intro log hlog
    simp only [List.mem_cons, List.not_mem_nil, or_false] at hlog
    rcases hlog with rfl | rfl <;> decide

end Allama
