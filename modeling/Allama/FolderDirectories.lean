import Mathlib
import Allama.Checked
import Allama.FolderTree
import Allama.SplitLists

/-! What a directory lists: the folders under a path by patterns and slash counts, and the workflows of its folder;
and the folders that a path is made of. -/
namespace Allama
open Checked LikePatterns ReadCommitted

/-- A row of `WorkflowDefinition`; no constraint keeps two of one version apart. -/
structure DefinitionRow where
  id : Uuid
  workflowId : Uuid
  version : ℕ

inductive DirectoryItem
  | folder (folder : Folder) (numItems : ℕ)
  | workflow (workflow : WorkflowRow) (latestDefinition : Option DefinitionRow)

inductive DirectoryError
  | notFound (path : Text)

namespace Workspace
variable (s : Workspace) (definitions : List DefinitionRow)

/-- The rows of a workflow, joined with its definitions of the latest version; version 0 counts as no definition. -/
def joinLatest (workflow : WorkflowRow) : List (WorkflowRow × Option DefinitionRow) :=
  let own := definitions.filter fun d => d.workflowId = workflow.id
  match own.filter fun d => d.version = (own.map DefinitionRow.version).foldl max 0 with
  | [] => [(workflow,none)]
  | latest => latest.map fun d => (workflow,if d.version = 0 then none else some d)

/-- The folders that are selected under a path. -/
def directoryFolders (path : Text) : List Folder :=
  if path = slash then s.folders.filter fun g => g.path.count '/' = 2
  else s.folders.filter fun g =>
    likePrefix path g.path && decide (g.path ≠ path) && !like (path ++ "%/%/".toList) g.path

def directoryWorkflows (folderId : Option Uuid) : List (WorkflowRow × Option DefinitionRow) :=
  (s.workflows.filter fun w => w.folderId = folderId).flatMap (joinLatest definitions)

/-- `num_items` of a folder. -/
def numItems (folder : Folder) : ℕ :=
  (if s.hasChildren folder.path then 1 else 0) + if s.hasWorkflows folder.id then 1 else 0

/-- `get_directory_items`; `createdAt` gives the times that the workflows are ordered by. -/
def getDirectoryItems (createdAt : Uuid → ℕ) (desc : Bool) (path : Text) : Except DirectoryError (List DirectoryItem) :=
  let path := withSlash path
  let items (folderId : Option Uuid) : List DirectoryItem :=
    (s.directoryFolders path).map (fun g => .folder g (s.numItems g)) ++
      ((s.directoryWorkflows definitions folderId).mergeSort fun a b =>
        if desc then createdAt b.1.id ≤ createdAt a.1.id else createdAt a.1.id ≤ createdAt b.1.id).map
        fun row => .workflow row.1 row.2
  if path = slash then .ok (items none)
  else
    match s.getFolderByPath path with
    | none => .error (.notFound path)
    | some folder => .ok (items (some folder.id))

/-- The folders whose path is `path`, their name and a slash. -/
def childFolders (path : Text) : List Folder := s.folders.filter fun g => g.path = path ++ g.name ++ slash

/-- The direct children of a folder. -/
def childCount (folder : Folder) : ℕ :=
  (s.childFolders folder.path).length + (s.workflows.filter fun w => w.folderId = some folder.id).length

/-- Every path ends in the name of its folder, under a path between slashes. -/
def Delimited (folders : List Folder) : Prop :=
  ∀ f ∈ folders, '/' ∉ f.name ∧ ∃ p, f.path = p ++ f.name ++ slash ∧ slash <+: p ∧ slash <:+ p

/-- The pattern of a path selects the folders directly under it, and of the others only such that the pattern of its
nested folders takes out. -/
def PatternExact (path : Text) : Prop :=
  ∀ g ∈ s.folders, (g.path = path ++ g.name ++ slash → likePrefix path g.path = true) ∧
    (likePrefix path g.path = true → g.path ≠ path → g.path ≠ path ++ g.name ++ slash →
      like (path ++ "%/%/".toList) g.path = true)

/-- One definition at most is the latest. -/
def SingleLatest (workflow : WorkflowRow) : Prop := (joinLatest definitions workflow).length ≤ 1

/-- A folder has at most one workflow, and one child folder if its pattern selects any folder, else none; or it has two
workflows and no child folder, and its pattern selects a folder that is not its child. -/
def CountExact (folder : Folder) : Prop :=
  let children := (s.childFolders folder.path).length
  let workflows := (s.workflows.filter fun w => w.folderId = some folder.id).length
  let selected := (s.getDescendants folder.path).length
  (workflows ≤ 1 ∧ (selected = 0 ∧ children = 0 ∨ 0 < selected ∧ children = 1)) ∨
    workflows = 2 ∧ children = 0 ∧ 0 < selected

end Workspace

section Patterns

def slashTokens (ts : List Token) : ℕ := ts.countP fun t => t = .lit '/'

theorem slashTokens_tokens (pattern : Text) : slashTokens (tokens pattern) = pattern.count '/' := by
  unfold slashTokens
  induction pattern using tokens.induct with
  | case1 => rfl
  | case2 c cs ih =>
    rw [tokens,List.countP_cons,ih,List.count_cons_of_ne (by decide),List.count_cons]
    simp
  | case3 cs ih =>
    rw [tokens,List.countP_cons,ih,List.count_cons_of_ne (by decide)]
    rfl
  | case4 cs ih =>
    rw [tokens,List.countP_cons,ih,List.count_cons_of_ne (by decide)]
    rfl
  | case5 c cs hb hp hu ih =>
    rw [tokens.eq_5 c cs hb hp hu,List.countP_cons,ih,List.count_cons]
    simp

theorem slashTokens_le {ts : List Token} : ∀ {s : Text}, tokensMatch ts s = true → slashTokens ts ≤ s.count '/' := by
  unfold slashTokens
  induction ts with
  | nil => exact fun _ => Nat.zero_le _
  | cons t ts ih =>
    intro s hs
    rw [List.countP_cons]
    cases t with
    | any =>
      obtain ⟨u,v,rfl,hv⟩ := tokensMatch_any_iff.mp hs
      have := ih hv
      rw [List.count_append]
      simp only [reduceCtorEq,decide_false,Bool.false_eq_true,if_false]
      omega
    | one =>
      cases s with
      | nil => cases hs
      | cons d s =>
        have := ih hs
        have hle : s.count '/' ≤ (d :: s).count '/' := List.Sublist.count_le _ (List.sublist_cons_self d s)
        simp only [reduceCtorEq,decide_false,Bool.false_eq_true,if_false]
        omega
    | lit c =>
      cases s with
      | nil => cases hs
      | cons d s =>
        obtain ⟨hc,hrest⟩ := Bool.and_eq_true_iff.mp hs
        obtain rfl : c = d := of_decide_eq_true hc
        have := ih hrest
        rw [List.count_cons]
        simp only [Token.lit.injEq,decide_eq_true_eq,beq_iff_eq]
        omega

theorem count_le_of_like {pattern s : Text} (h : like pattern s = true) : pattern.count '/' ≤ s.count '/' := by
  rw [← slashTokens_tokens]
  exact slashTokens_le h

theorem like_plain_append {p : Text} (h : Plain p) (pattern s : Text) : like (p ++ pattern) (p ++ s) = like pattern s := by
  induction p with
  | nil => rfl
  | cons c cs ih =>
    have hcs : Plain cs := fun d hd => h d (List.mem_cons_of_mem c hd)
    rw [← ih hcs]
    unfold like
    rw [List.cons_append,tokens_cons_plain (h c List.mem_cons_self),List.cons_append,tokensMatch,decide_eq_true rfl,Bool.true_and]

theorem like_nested (x name : Text) : like "%/%/".toList (x ++ slash ++ name ++ slash) = true := by
  have htokens : tokens "%/%/".toList = [.any,.lit '/',.any,.lit '/'] := by decide
  unfold like
  rw [htokens]
  apply tokensMatch_any_iff.mpr
  refine ⟨x,slash ++ name ++ slash,by simp only [List.append_assoc],?_⟩
  change (decide ('/' = '/') && tokensMatch [.any,.lit '/'] (name ++ slash)) = true
  rw [decide_eq_true rfl,Bool.true_and]
  exact tokensMatch_any_iff.mpr ⟨name,slash,rfl,rfl⟩

end Patterns

section Listings
variable {s : Workspace} {definitions : List DefinitionRow} {path : Text}

theorem count_slash_eq_zero {name : Text} (h : '/' ∉ name) : name.count '/' = 0 := List.count_eq_zero.mpr h

theorem two_le_count {p : Text} (hstart : slash <+: p) (hend : slash <:+ p) (hne : p ≠ slash) : 2 ≤ p.count '/' := by
  obtain ⟨rest,rfl⟩ := hstart
  have hrest : rest ≠ [] := by
    rintro rfl
    exact hne (List.append_nil _)
  obtain ⟨init,last,rfl⟩ : ∃ init last, rest = init ++ [last] := ⟨_,_,(List.dropLast_append_getLast hrest).symm⟩
  obtain ⟨u,hu⟩ := hend
  rw [← List.append_assoc] at hu
  obtain ⟨-,hlast⟩ := List.append_inj' hu rfl
  rw [← hlast,List.count_append,List.count_append]
  change 2 ≤ 1 + (init.count '/' + 1)
  omega

theorem directoryFolders_root (h : Workspace.Delimited s.folders) : s.directoryFolders slash = s.childFolders slash := by
  unfold Workspace.directoryFolders Workspace.childFolders
  rw [if_pos rfl]
  apply List.filter_congr
  intro g hg
  obtain ⟨hname,p,hpath,hstart,hend⟩ := h g hg
  have hcount : g.path.count '/' = p.count '/' + 1 := by
    rw [hpath,List.count_append,List.count_append,count_slash_eq_zero hname]
    rfl
  rw [decide_eq_decide]
  constructor
  · intro htwo
    by_cases hroot : p = slash
    · rw [hpath,hroot]
    · have := two_le_count hstart hend hroot
      omega
  · intro hchild
    rw [hchild,List.count_append,List.count_append,count_slash_eq_zero hname]
    rfl

theorem not_nested_of_child {g : Folder} (hname : '/' ∉ g.name) (hpath : g.path = path ++ g.name ++ slash) :
    like (path ++ "%/%/".toList) g.path = false := by
  rw [Bool.eq_false_iff]
  intro hlike
  have := count_le_of_like hlike
  rw [hpath,List.count_append,List.count_append,List.count_append,count_slash_eq_zero hname] at this
  change path.count '/' + 2 ≤ path.count '/' + 0 + 1 at this
  omega

theorem directoryFolders_iff (h : Workspace.Delimited s.folders) (hpath : path ≠ slash) :
    (s.directoryFolders path).Perm (s.childFolders path) ↔ s.PatternExact path := by
  unfold Workspace.directoryFolders Workspace.childFolders
  rw [if_neg hpath]
  have hdiffers : ∀ g ∈ s.folders, g.path = path ++ g.name ++ slash → g.path ≠ path := by
    intro g _ hchild heq
    have := congrArg List.length (hchild.symm.trans heq)
    rw [List.length_append,List.length_append] at this
    change path.length + g.name.length + 1 = path.length at this
    omega
  constructor
  · intro hperm g hg
    have hiff := hperm.mem_iff (a := g)
    rw [List.mem_filter,List.mem_filter] at hiff
    constructor
    · intro hchild
      have hselected := (hiff.mpr ⟨hg,decide_eq_true hchild⟩).2
      exact (Bool.and_eq_true_iff.mp (Bool.and_eq_true_iff.mp hselected).1).1
    · intro hlike hne hnochild
      by_contra hnested
      rw [Bool.not_eq_true] at hnested
      apply hnochild
      have hselected : (likePrefix path g.path && decide (g.path ≠ path) && !like (path ++ "%/%/".toList) g.path) = true := by
        rw [hlike,decide_eq_true hne,hnested]
        rfl
      exact of_decide_eq_true (hiff.mp ⟨hg,hselected⟩).2
  · intro hexact
    apply List.Perm.of_eq
    apply List.filter_congr
    intro g hg
    obtain ⟨hselects,hrest⟩ := hexact g hg
    by_cases hchild : g.path = path ++ g.name ++ slash
    · rw [hselects hchild,decide_eq_true (hdiffers g hg hchild),not_nested_of_child (h g hg).1 hchild,decide_eq_true hchild]
      rfl
    · rw [decide_eq_false hchild,Bool.eq_false_iff]
      intro hselected
      obtain ⟨hpair,hnested⟩ := Bool.and_eq_true_iff.mp hselected
      obtain ⟨hlike,hne⟩ := Bool.and_eq_true_iff.mp hpair
      rw [hrest hlike (of_decide_eq_true hne) hchild] at hnested
      cases hnested

theorem patternExact_of_plain (h : Workspace.Delimited s.folders) (hplain : Plain path) (hslash : slash <:+ path) :
    s.PatternExact path := by
  intro g hg
  obtain ⟨hname,q,hpath,hstart,hend⟩ := h g hg
  constructor
  · intro hchild
    rw [likePrefix_plain hplain,hchild,List.append_assoc]
    exact List.prefix_append _ _
  · intro hlike hne hnochild
    have hunder : path <+: q := by
      have habove := (likePrefix_plain hplain).mp hlike
      rw [hpath] at habove hne
      exact prefix_parent hname hslash habove fun heq => hne heq.symm
    obtain ⟨t,ht⟩ := hunder
    have htne : t ≠ [] := by
      rintro rfl
      rw [List.append_nil] at ht
      exact hnochild (ht ▸ hpath)
    obtain ⟨x,last,rfl⟩ : ∃ x last, t = x ++ [last] := ⟨_,_,(List.dropLast_append_getLast htne).symm⟩
    obtain ⟨u,hu⟩ := hend
    rw [← ht,← List.append_assoc] at hu
    obtain ⟨-,hlast⟩ := List.append_inj' hu rfl
    rw [← hlast] at ht
    rw [hpath,← ht]
    have hassoc : path ++ (x ++ slash) ++ g.name ++ slash = path ++ (x ++ slash ++ g.name ++ slash) := by
      simp only [List.append_assoc]
    rw [hassoc,like_plain_append hplain]
    exact like_nested x g.name

theorem joinLatest_fst (w : WorkflowRow) : (Workspace.joinLatest definitions w).map Prod.fst =
    List.replicate (Workspace.joinLatest definitions w).length w ∧ 1 ≤ (Workspace.joinLatest definitions w).length := by
  unfold Workspace.joinLatest
  dsimp only
  split
  · exact ⟨rfl,Nat.le_refl _⟩
  · rename_i hlatest
    constructor
    · rw [List.map_map,List.length_map]
      exact List.eq_replicate_iff.mpr ⟨List.length_map _,by
        intro w' hw'
        obtain ⟨d,-,rfl⟩ := List.mem_map.mp hw'
        rfl⟩
    · rw [List.length_map]
      exact List.length_pos_iff.mpr fun hnil => hlatest hnil

theorem flatMap_fst_perm_iff (ws : List WorkflowRow) :
    ((ws.flatMap (Workspace.joinLatest definitions)).map Prod.fst).Perm ws ↔
      ∀ w ∈ ws, Workspace.SingleLatest definitions w := by
  constructor
  · intro hperm
    have hlength := hperm.length_eq
    rw [List.length_map] at hlength
    have hle : ∀ ws : List WorkflowRow, ws.length ≤ (ws.flatMap (Workspace.joinLatest definitions)).length := by
      intro ws
      induction ws with
      | nil => exact Nat.le_refl _
      | cons w ws ih =>
        have := (@joinLatest_fst definitions w).2
        rw [List.flatMap_cons,List.length_append,List.length_cons]
        omega
    clear hperm
    induction ws with
    | nil =>
      intro w hw
      cases hw
    | cons w ws ih =>
      have hw := (@joinLatest_fst definitions w).2
      have hws := hle ws
      rw [List.flatMap_cons,List.length_append,List.length_cons] at hlength
      intro other hother
      obtain rfl | hrest := List.mem_cons.mp hother
      · exact (by omega : (Workspace.joinLatest definitions other).length ≤ 1)
      · exact ih (by omega) other hrest
  · intro hsingle
    apply List.Perm.of_eq
    induction ws with
    | nil => rfl
    | cons w ws ih =>
      obtain ⟨hfst,hone⟩ := @joinLatest_fst definitions w
      have hlength : (Workspace.joinLatest definitions w).length = 1 := Nat.le_antisymm (hsingle w List.mem_cons_self) hone
      rw [hlength] at hfst
      rw [List.flatMap_cons,List.map_append,hfst,ih fun other hother => hsingle other (List.mem_cons_of_mem _ hother)]
      rfl

theorem numItems_iff (folder : Folder) : s.numItems folder = s.childCount folder ↔ s.CountExact folder := by
  unfold Workspace.numItems Workspace.childCount Workspace.CountExact Workspace.hasChildren Workspace.hasWorkflows
  have hany : (s.workflows.any fun w => w.folderId = some folder.id) = true ↔
      0 < (s.workflows.filter fun w => w.folderId = some folder.id).length := by
    rw [List.any_eq_true,List.length_pos_iff_exists_mem]
    simp only [List.mem_filter]
  dsimp only
  simp only [hany,decide_eq_true_eq]
  generalize (s.workflows.filter fun w => w.folderId = some folder.id).length = workflows
  generalize (s.childFolders folder.path).length = children
  generalize (s.getDescendants folder.path).length = selected
  split_ifs <;> omega

def DirectoryItem.folderRow : DirectoryItem → Option (Folder × ℕ)
  | .folder g n => some (g,n)
  | .workflow _ _ => none

def DirectoryItem.workflowRow : DirectoryItem → Option WorkflowRow
  | .folder _ _ => none
  | .workflow w _ => some w

/-- The child folders, each with the number of its direct children, and the workflows of the folder, each once. -/
def Workspace.ListsExactly (s : Workspace) (path : Text) (folderId : Option Uuid) (items : List DirectoryItem) : Prop :=
  ((items.filterMap DirectoryItem.folderRow).map Prod.fst).Perm (s.childFolders path) ∧
    (items.filterMap DirectoryItem.workflowRow).Perm (s.workflows.filter fun w => w.folderId = folderId) ∧
    ∀ row ∈ items.filterMap DirectoryItem.folderRow, row.2 = s.childCount row.1

/-- The folder that the workflows of a directory are in, none for a path that is no folder. -/
def Workspace.directoryId (s : Workspace) (path : Text) : Option (Option Uuid) :=
  if path = slash then some none else (s.getFolderByPath path).map fun folder => some folder.id

def Workspace.directoryItems (s : Workspace) (definitions : List DefinitionRow) (createdAt : Uuid → ℕ) (desc : Bool)
    (path : Text) (folderId : Option Uuid) : List DirectoryItem :=
  (s.directoryFolders path).map (fun g => .folder g (s.numItems g)) ++
    ((s.directoryWorkflows definitions folderId).mergeSort fun a b =>
      if desc then createdAt b.1.id ≤ createdAt a.1.id else createdAt a.1.id ≤ createdAt b.1.id).map
      fun row => .workflow row.1 row.2

theorem getDirectoryItems_eq {createdAt : Uuid → ℕ} {desc : Bool} {folderId : Option Uuid}
    (hid : s.directoryId (withSlash path) = some folderId) :
    s.getDirectoryItems definitions createdAt desc path =
      .ok (s.directoryItems definitions createdAt desc (withSlash path) folderId) := by
  unfold Workspace.getDirectoryItems
  unfold Workspace.directoryId at hid
  dsimp only
  by_cases hroot : withSlash path = slash
  · rw [if_pos hroot] at hid ⊢
    cases hid
    rfl
  · rw [if_neg hroot] at hid ⊢
    obtain ⟨folder,hfolder,rfl⟩ := Option.map_eq_some_iff.mp hid
    rw [hfolder]
    rfl

theorem folderRows (createdAt : Uuid → ℕ) (desc : Bool) (folderId : Option Uuid) :
    (s.directoryItems definitions createdAt desc path folderId).filterMap DirectoryItem.folderRow =
      (s.directoryFolders path).map fun g => (g,s.numItems g) := by
  unfold Workspace.directoryItems
  rw [List.filterMap_append,List.filterMap_map,List.filterMap_map]
  have hfolders : (DirectoryItem.folderRow ∘ fun g : Folder => DirectoryItem.folder g (s.numItems g)) =
      some ∘ fun g => (g,s.numItems g) := rfl
  have hworkflows : (DirectoryItem.folderRow ∘ fun row : WorkflowRow × Option DefinitionRow =>
      DirectoryItem.workflow row.1 row.2) = fun _ => none := rfl
  rw [hfolders,hworkflows,List.filterMap_eq_map,List.filterMap_eq_nil_iff.mpr fun _ _ => rfl,List.append_nil]

theorem workflowRows (createdAt : Uuid → ℕ) (desc : Bool) (folderId : Option Uuid) :
    ((s.directoryItems definitions createdAt desc path folderId).filterMap DirectoryItem.workflowRow).Perm
      ((s.directoryWorkflows definitions folderId).map Prod.fst) := by
  unfold Workspace.directoryItems
  rw [List.filterMap_append,List.filterMap_map,List.filterMap_map]
  have hfolders : (DirectoryItem.workflowRow ∘ fun g : Folder => DirectoryItem.folder g (s.numItems g)) = fun _ => none := rfl
  have hworkflows : (DirectoryItem.workflowRow ∘ fun row : WorkflowRow × Option DefinitionRow =>
      DirectoryItem.workflow row.1 row.2) = some ∘ Prod.fst := rfl
  rw [hfolders,hworkflows,List.filterMap_eq_map,List.filterMap_eq_nil_iff.mpr fun _ _ => rfl,List.nil_append]
  exact (List.mergeSort_perm _ _).map _

theorem listsExactly_iff (h : Workspace.Delimited s.folders) (createdAt : Uuid → ℕ) (desc : Bool) (folderId : Option Uuid) :
    s.ListsExactly path folderId (s.directoryItems definitions createdAt desc path folderId) ↔
      (path = slash ∨ s.PatternExact path) ∧
        (∀ w ∈ s.workflows, w.folderId = folderId → Workspace.SingleLatest definitions w) ∧
        ∀ g ∈ s.directoryFolders path, s.CountExact g := by
  unfold Workspace.ListsExactly
  rw [folderRows,List.map_map]
  have hid : (s.directoryFolders path).map (Prod.fst ∘ fun g => (g,s.numItems g)) = s.directoryFolders path := List.map_id _
  rw [hid]
  have hfolders : (s.directoryFolders path).Perm (s.childFolders path) ↔ path = slash ∨ s.PatternExact path := by
    by_cases hroot : path = slash
    · subst hroot
      rw [directoryFolders_root h]
      exact ⟨fun _ => .inl rfl,fun _ => List.Perm.refl _⟩
    · rw [directoryFolders_iff h hroot]
      exact ⟨.inr,fun hexact => hexact.resolve_left hroot⟩
  have hworkflows : ((s.directoryItems definitions createdAt desc path folderId).filterMap DirectoryItem.workflowRow).Perm
      (s.workflows.filter fun w => w.folderId = folderId) ↔
      ∀ w ∈ s.workflows, w.folderId = folderId → Workspace.SingleLatest definitions w := by
    have hjoined := @flatMap_fst_perm_iff definitions (s.workflows.filter fun w => w.folderId = folderId)
    have hrows := @workflowRows s definitions path createdAt desc folderId
    simp only [List.mem_filter,decide_eq_true_eq,and_imp] at hjoined
    exact ⟨fun hperm => hjoined.mp (hrows.symm.trans hperm),fun hsingle => hrows.trans (hjoined.mpr hsingle)⟩
  have hcounts : (∀ row ∈ (s.directoryFolders path).map fun g => (g,s.numItems g), row.2 = s.childCount row.1) ↔
      ∀ g ∈ s.directoryFolders path, s.CountExact g := by
    rw [List.forall_mem_map]
    exact forall₂_congr fun g _ => numItems_iff g
  exact and_congr hfolders (and_congr hworkflows hcounts)

end Listings

section Ensured
variable {s : Workspace} {uuid4 : Text → Uuid}

/-- The names and the paths that the segments of a path make below another. -/
def ancestorPaths (current : Text) : List Text → List (Text × Text)
  | [] => []
  | segment :: segments =>
    if segment = [] then ancestorPaths current segments
    else (segment,current ++ segment ++ slash) :: ancestorPaths (current ++ segment ++ slash) segments

def lastPath (current : Text) : List Text → Text
  | [] => current
  | segment :: segments => if segment = [] then lastPath current segments else lastPath (current ++ segment ++ slash) segments

def normalisedPath (folderPath : Text) : Text := lastPath slash (pathSegments folderPath)

def Workspace.missingFolders (s : Workspace) (uuid4 : Text → Uuid) (paths : List (Text × Text)) : List Folder :=
  (paths.filter fun p => !s.folderPathExists p.2).map fun p => ⟨uuid4 p.2,p.1,p.2⟩

/-- The ids that are drawn for the missing folders are new. -/
def Workspace.FreshDraws (s : Workspace) (uuid4 : Text → Uuid) (paths : List (Text × Text)) : Prop :=
  ((s.folders ++ s.missingFolders uuid4 paths).map Folder.id).Nodup

theorem folderPathExists_iff {path : Text} : s.folderPathExists path = true ↔ ∃ g ∈ s.folders, g.path = path := by
  unfold Workspace.folderPathExists
  rw [List.any_eq_true]
  simp only [decide_eq_true_eq]

theorem getFolderByPath_eq_none {path : Text} (hslash : slash <:+ path) :
    s.getFolderByPath path = none ↔ s.folderPathExists path = false := by
  unfold Workspace.getFolderByPath Workspace.folderPathExists
  rw [withSlash_of_suffix hslash,List.find?_eq_none,List.any_eq_false]

theorem path_of_getFolderByPath {path : Text} {folder : Folder} (h : s.getFolderByPath path = some folder) :
    folder.path = withSlash path := by
  unfold Workspace.getFolderByPath at h
  have hfound := List.find?_some h
  exact of_decide_eq_true hfound

theorem length_ancestorPaths {segments : List Text} : ∀ {current : Text}, ∀ p ∈ ancestorPaths current segments,
    current.length < p.2.length := by
  induction segments with
  | nil =>
    intro current p hp
    cases hp
  | cons segment segments ih =>
    intro current p hp
    rw [ancestorPaths] at hp
    split_ifs at hp
    · exact ih p hp
    · have hlonger : current.length < (current ++ segment ++ slash).length := by
        rw [List.length_append,List.length_append]
        change current.length < current.length + segment.length + 1
        omega
      obtain rfl | hrest := List.mem_cons.mp hp
      · exact hlonger
      · exact hlonger.trans (ih p hrest)

theorem createFolder_ok {id : Uuid} {name current : Text} (hname : '/' ∉ name) (hslash : slash <:+ current)
    (hparent : current = slash ∨ s.folderPathExists current = true)
    (hmissing : s.folderPathExists (current ++ name ++ slash) = false) (hid : id ∉ s.folders.map Folder.id) :
    ∃ s', (createFolder id name current).exec s = .ok s' ∧ s'.folders = s.folders ++ [⟨id,name,current ++ name ++ slash⟩] := by
  have hpath : current ++ name ++ slash ∉ s.folders.map Folder.path := by
    intro hmem
    obtain ⟨g,hg,hgp⟩ := List.mem_map.mp hmem
    rw [folderPathExists_iff.mpr ⟨g,hg,hgp⟩] at hmissing
    cases hmissing
  have hids : ((s.folders ++ [(⟨id,name,current ++ name ++ slash⟩ : Folder)]).map Folder.id).Nodup := by
    rw [List.map_append]
    exact List.Nodup.append s.ids_nodup (List.nodup_singleton _) (List.disjoint_singleton.mpr hid)
  have hpaths : ((s.folders ++ [(⟨id,name,current ++ name ++ slash⟩ : Folder)]).map Folder.path).Nodup := by
    rw [List.map_append]
    exact List.Nodup.append s.paths_nodup (List.nodup_singleton _) (List.disjoint_singleton.mpr hpath)
  have hunder : (createUnder id name current).exec s =
      .ok ⟨s.folders ++ [⟨id,name,current ++ name ++ slash⟩],s.workflows,hids,hpaths⟩ := by
    unfold createUnder
    rw [withSlash_of_suffix hslash,childPath_eq]
    simp only [Txn.exec,hmissing,Bool.false_eq_true,if_false]
    unfold insertFolder
    rw [dif_pos ⟨hids,hpaths⟩]
  refine ⟨⟨s.folders ++ [(⟨id,name,current ++ name ++ slash⟩ : Folder)],s.workflows,hids,hpaths⟩,?_,rfl⟩
  unfold createFolder
  rw [if_neg hname]
  obtain rfl | hexists := hparent
  · rw [if_neg (not_not.mpr rfl)]
    exact hunder
  · by_cases hroot : current = slash
    · rw [if_neg (not_not.mpr hroot)]
      exact hunder
    · rw [if_pos hroot]
      simp only [Txn.exec,hexists,if_true]
      exact hunder

/-- The loop over the segments creates what is missing on the way, and nothing else. -/
theorem ensureSegments_ok {segments : List Text} (hsegments : ∀ segment ∈ segments, '/' ∉ segment) :
    ∀ {s : Workspace} {current : Text}, slash <:+ current → (current = slash ∨ s.folderPathExists current = true) →
      s.FreshDraws uuid4 (ancestorPaths current segments) →
      ∃ s', ensureSegments uuid4 current segments s = .ok s' ∧
        s'.folders = s.folders ++ s.missingFolders uuid4 (ancestorPaths current segments) ∧
        (lastPath current segments = slash ∨ s'.folderPathExists (lastPath current segments) = true) := by
  induction segments with
  | nil =>
    intro s current _ hparent _
    exact ⟨s,rfl,(List.append_nil _).symm,hparent⟩
  | cons segment segments ih =>
    intro s current hslash hparent hfresh
    have hrest := @ih fun other hother => hsegments other (List.mem_cons_of_mem _ hother)
    unfold ensureSegments
    by_cases hempty : segment = []
    · rw [if_pos hempty,ancestorPaths,if_pos hempty,lastPath,if_pos hempty]
      rw [ancestorPaths,if_pos hempty] at hfresh
      exact hrest hslash hparent hfresh
    · rw [if_neg hempty,ancestorPaths,if_neg hempty,lastPath,if_neg hempty]
      rw [ancestorPaths,if_neg hempty] at hfresh
      have hend : slash <:+ current ++ segment ++ slash := List.suffix_append _ _
      dsimp only
      cases hthere : s.folderPathExists (current ++ segment ++ slash) with
      | true =>
        have hsame : ∀ paths, s.missingFolders uuid4 ((segment,current ++ segment ++ slash) :: paths) =
            s.missingFolders uuid4 paths := by
          intro paths
          unfold Workspace.missingFolders
          rw [List.filter_cons_of_neg (by rw [hthere]; exact Bool.false_ne_true)]
        unfold Workspace.FreshDraws at hfresh
        rw [hsame] at hfresh ⊢
        obtain ⟨folder,hfound⟩ : ∃ folder, s.getFolderByPath (current ++ segment ++ slash) = some folder := by
          apply Option.ne_none_iff_exists'.mp
          intro hnone
          rw [(getFolderByPath_eq_none hend).mp hnone] at hthere
          cases hthere
        rw [hfound]
        exact hrest hend (.inr hthere) hfresh
      | false =>
        have hmissing : s.missingFolders uuid4 ((segment,current ++ segment ++ slash) ::
            ancestorPaths (current ++ segment ++ slash) segments) =
            ⟨uuid4 (current ++ segment ++ slash),segment,current ++ segment ++ slash⟩ ::
              s.missingFolders uuid4 (ancestorPaths (current ++ segment ++ slash) segments) := by
          unfold Workspace.missingFolders
          rw [List.filter_cons_of_pos (by rw [hthere]; rfl)]
          rfl
        unfold Workspace.FreshDraws at hfresh
        rw [hmissing] at hfresh ⊢
        rw [(getFolderByPath_eq_none hend).mpr hthere]
        dsimp only
        have hid : uuid4 (current ++ segment ++ slash) ∉ s.folders.map Folder.id := by
          rw [List.map_append,List.map_cons] at hfresh
          intro hmem
          exact List.disjoint_of_nodup_append hfresh hmem List.mem_cons_self
        obtain ⟨t,ht,hfolders⟩ := createFolder_ok (hsegments segment List.mem_cons_self) hslash hparent hthere hid
        have hcreated : t.folderPathExists (current ++ segment ++ slash) = true :=
          folderPathExists_iff.mpr ⟨⟨uuid4 (current ++ segment ++ slash),segment,current ++ segment ++ slash⟩,
            by rw [hfolders]; exact List.mem_append_right _ List.mem_cons_self,rfl⟩
        -- the created folder is on none of the longer paths
        have hlater : t.missingFolders uuid4 (ancestorPaths (current ++ segment ++ slash) segments) =
            s.missingFolders uuid4 (ancestorPaths (current ++ segment ++ slash) segments) := by
          unfold Workspace.missingFolders
          congr 1
          apply List.filter_congr
          intro p hp
          have hne : p.2 ≠ current ++ segment ++ slash := by
            intro heq
            have := length_ancestorPaths p hp
            rw [heq] at this
            exact Nat.lt_irrefl _ this
          have hsame : t.folderPathExists p.2 = s.folderPathExists p.2 := by
            rw [Bool.eq_iff_iff,folderPathExists_iff,folderPathExists_iff,hfolders]
            constructor
            · rintro ⟨g,hg,hgp⟩
              obtain hold | hnew := List.mem_append.mp hg
              · exact ⟨g,hold,hgp⟩
              · obtain rfl := List.mem_singleton.mp hnew
                exact absurd hgp.symm hne
            · rintro ⟨g,hg,hgp⟩
              exact ⟨g,List.mem_append_left _ hg,hgp⟩
          rw [hsame]
        have hfresh' : t.FreshDraws uuid4 (ancestorPaths (current ++ segment ++ slash) segments) := by
          unfold Workspace.FreshDraws
          rw [hlater,hfolders,List.append_assoc]
          exact hfresh
        obtain ⟨s',hs',hfolders',hlast⟩ := hrest hend (.inr hcreated) hfresh'
        refine ⟨s',?_,?_,hlast⟩
        · rw [ht]
          exact hs'
        · rw [hfolders',hlater,hfolders,List.append_assoc]
          rfl

/-- The folder at the normalised path is returned, and what was missing on the way to it is created. -/
def Workspace.Ensures (s : Workspace) (uuid4 : Text → Uuid) (folderPath : Text) : Prop :=
  ∃ s' folder, ensureFolderExists uuid4 folderPath s = .ok s' ∧ s'.getFolderByPath folderPath = some folder ∧
    folder.path = normalisedPath folderPath ∧
    s'.folders = s.folders ++ s.missingFolders uuid4 (ancestorPaths slash (pathSegments folderPath))

/-- A path is ensured if and only if it is normalised, but for the slash at its end, and not the root. -/
theorem ensures_iff {folderPath : Text} (hfresh : s.FreshDraws uuid4 (ancestorPaths slash (pathSegments folderPath))) :
    s.Ensures uuid4 folderPath ↔ withSlash folderPath = normalisedPath folderPath ∧ normalisedPath folderPath ≠ slash := by
  have hnames : ∀ segment ∈ pathSegments folderPath, '/' ∉ segment := fun segment hsegment =>
    SplitLists.notMem_of_mem_splitOn hsegment
  obtain ⟨s',hsegments,hfolders,hlast⟩ := ensureSegments_ok hnames List.suffix_rfl (.inl rfl) hfresh
  constructor
  · rintro ⟨t,folder,hensure,hfound,hpath,-⟩
    have hwith : folder.path = withSlash folderPath := path_of_getFolderByPath hfound
    refine ⟨hwith.symm.trans hpath,?_⟩
    intro hroot
    have hslash : withSlash folderPath = slash := (hwith.symm.trans hpath).trans hroot
    have hrejected : folderPath = [] ∨ folderPath = slash := by
      unfold withSlash at hslash
      split_ifs at hslash
      · exact .inr hslash
      · exact .inl (List.append_left_eq_self.mp hslash)
    unfold ensureFolderExists at hensure
    rw [if_pos hrejected] at hensure
    cases hensure
  · rintro ⟨hwith,hroot⟩
    have haccepted : ¬ (folderPath = [] ∨ folderPath = slash) := by
      rintro (rfl | rfl)
      · exact hroot (hwith.symm.trans rfl)
      · exact hroot (hwith.symm.trans rfl)
    have hexists : s'.folderPathExists (withSlash folderPath) = true := by
      rw [hwith]
      exact hlast.resolve_left hroot
    obtain ⟨folder,hfound⟩ : ∃ folder, s'.getFolderByPath folderPath = some folder := by
      apply Option.ne_none_iff_exists'.mp
      intro hnone
      obtain ⟨g,hg,hgp⟩ := folderPathExists_iff.mp hexists
      exact absurd (decide_eq_true hgp) (List.find?_eq_none.mp hnone g hg)
    refine ⟨s',folder,?_,hfound,?_,hfolders⟩
    · unfold ensureFolderExists
      rw [if_neg haccepted,hsegments]
      change (match s'.getFolderByPath folderPath with
        | none => _
        | some _ => _) = _
      rw [hfound]
      rfl
    · exact (path_of_getFolderByPath hfound).trans hwith

end Ensured

/-- What a directory lists and what an import ensures are right exactly under these conditions; a path without wildcards
has exact patterns. -/
theorem directories_exact_iff {s : Workspace} (h : Workspace.Delimited s.folders) (definitions : List DefinitionRow)
    (createdAt : Uuid → ℕ) (desc : Bool) (path : Text) (uuid4 : Text → Uuid) (folderPath : Text)
    (hfresh : s.FreshDraws uuid4 (ancestorPaths slash (pathSegments folderPath))) :
    (∀ folderId, s.directoryId (withSlash path) = some folderId →
      ∃ items, s.getDirectoryItems definitions createdAt desc path = .ok items ∧
        (s.ListsExactly (withSlash path) folderId items ↔
          (withSlash path = slash ∨ s.PatternExact (withSlash path)) ∧
            (∀ w ∈ s.workflows, w.folderId = folderId → Workspace.SingleLatest definitions w) ∧
            ∀ g ∈ s.directoryFolders (withSlash path), s.CountExact g)) ∧
    (Plain (withSlash path) → s.PatternExact (withSlash path)) ∧
    (s.Ensures uuid4 folderPath ↔
      withSlash folderPath = normalisedPath folderPath ∧ normalisedPath folderPath ≠ slash) := by
  refine ⟨?_,?_,ensures_iff hfresh⟩
  · intro folderId hid
    exact ⟨_,getDirectoryItems_eq hid,listsExactly_iff h createdAt desc folderId⟩
  · intro hplain
    apply patternExact_of_plain h hplain
    unfold withSlash
    split_ifs with hslash
    · exact hslash
    · exact List.suffix_append _ _

/-- One folder, without workflows. -/
def sampleDirectory : Workspace where
  folders := [⟨.ofDigit 1,"a".toList,"/a/".toList⟩]
  workflows := []
  ids_nodup := List.nodup_singleton _
  paths_nodup := List.nodup_singleton _

theorem directories_exact_iff_sample : (∃ items, sampleDirectory.getDirectoryItems [] (fun _ => 0) true slash = .ok items ∧
      sampleDirectory.ListsExactly slash none items) ∧
    sampleDirectory.Ensures (fun _ => .ofDigit 2) "/a/b".toList := by
  have hdelimited : Workspace.Delimited sampleDirectory.folders := by
    intro f hf
    obtain rfl := List.mem_singleton.mp hf
    exact ⟨by decide,slash,by decide,List.prefix_rfl,List.suffix_rfl⟩
  obtain ⟨hlists,-,hensures⟩ := directories_exact_iff hdelimited [] (fun _ => 0) true slash (fun _ => .ofDigit 2) "/a/b".toList
    (by unfold Workspace.FreshDraws; decide)
  obtain ⟨items,hitems,hexact⟩ := hlists none (by decide)
  refine ⟨⟨items,hitems,hexact.mpr ⟨.inl (by decide),?_,?_⟩⟩,hensures.mpr (by decide)⟩
  · intro w hw
    cases hw
  · intro g hg
    obtain rfl := List.mem_singleton.mp (show g ∈ [(⟨.ofDigit 1,"a".toList,"/a/".toList⟩ : Folder)] from hg)
    exact .inl ⟨by decide,.inl (by decide)⟩

/-- A folder whose name has a wildcard beside one that it matches, and two workflows in the first. -/
def wildDirectory : Workspace where
  folders := [⟨.ofDigit 1,"a_b".toList,"/a_b/".toList⟩,⟨.ofDigit 2,"axb".toList,"/axb/".toList⟩]
  workflows := [⟨.ofDigit 3,some (.ofDigit 2)⟩,⟨.ofDigit 4,some (.ofDigit 2)⟩]
  ids_nodup := by decide
  paths_nodup := by decide

/-- The directory of `/a_b/` lists `/axb/`, whose two workflows count as one item; a path without its first slash is made
and then not found. -/
theorem directories_inexact :
    (∃ items, wildDirectory.getDirectoryItems [] (fun _ => 0) true "/a_b/".toList = .ok items ∧
      ¬ wildDirectory.ListsExactly "/a_b/".toList (some (.ofDigit 1)) items) ∧
    wildDirectory.numItems ⟨.ofDigit 2,"axb".toList,"/axb/".toList⟩ ≠
      wildDirectory.childCount ⟨.ofDigit 2,"axb".toList,"/axb/".toList⟩ ∧
    ¬ wildDirectory.Ensures (fun _ => .ofDigit 5) "c".toList := by
  refine ⟨⟨_,@getDirectoryItems_eq wildDirectory [] "/a_b/".toList (fun _ => 0) true (some (.ofDigit 1)) (by decide),?_⟩,by decide,?_⟩
  · rintro ⟨hfolders,-,-⟩
    rw [folderRows,List.map_map] at hfolders
    exact absurd hfolders.length_eq (by decide)
  · rw [ensures_iff (by unfold Workspace.FreshDraws; decide)]
    decide

end Allama
