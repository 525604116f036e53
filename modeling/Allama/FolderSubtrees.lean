import Allama.Checked
import Allama.Folders

/-! Which folders the operations on a subtree reach, and when these are those of the subtree. -/
namespace Allama
open Checked LikePatterns ReadCommitted
variable {folder : Folder} {us : List FolderUpdate} {folder' g : Folder} {loaded : List Folder}

theorem withSlash_of_suffix {path : Text} (h : slash <:+ path) : withSlash path = path := by
  rw [withSlash, if_pos h]

namespace Workspace
variable {s s' : Workspace}

theorem getFolder_some {id : Uuid} (h : s.getFolder id = some g) : g ∈ s.folders ∧ g.id = id :=
  ⟨List.mem_of_find?_eq_some h,by simpa using List.find?_some h⟩

theorem eq_of_id {g' : Folder} (hg : g ∈ s.folders) (hg' : g' ∈ s.folders) (h : g.id = g'.id) :
    g = g' := List.inj_on_of_nodup_map s.ids_nodup hg hg' h

theorem eq_of_path {g' : Folder} (hg : g ∈ s.folders) (hg' : g' ∈ s.folders) (h : g.path = g'.path) :
    g = g' := List.inj_on_of_nodup_map s.paths_nodup hg hg' h

theorem mem_getDescendants {path : Text} (hslash : slash <:+ path) :
    g ∈ s.getDescendants path ↔ g ∈ s.folders ∧ likePrefix path g.path = true ∧ g.path ≠ path := by
  rw [getDescendants, withSlash_of_suffix hslash, List.mem_filter]
  simp

end Workspace

theorem Folder.diff_apply {old new : Folder} (h : new.id = old.id) : (old.diff new).apply old = new := by
  obtain ⟨id,name,path⟩ := old
  obtain ⟨id',name',path'⟩ := new
  obtain rfl : id' = id := h
  unfold diff FolderUpdate.apply
  by_cases hn : name' = name <;> by_cases hp : path' = path <;> simp [hn, hp]

theorem Folder.eq_of_diff_isEmpty {old new : Folder} (h : new.id = old.id)
    (he : (old.diff new).isEmpty = true) : new = old := by
  obtain ⟨id,name,path⟩ := old
  obtain ⟨id',name',path'⟩ := new
  obtain rfl : id' = id := h
  simp only [FolderUpdate.isEmpty, diff, decide_eq_true_eq] at he
  by_cases hn : name' = name <;> by_cases hp : path' = path <;> simp_all

section
variable {s s' : Workspace}

theorem updateFolder_ok {u : FolderUpdate} (h : updateFolder s u = .ok s') :
    s'.folders = s.folders.map u.apply ∧ s'.workflows = s.workflows := by
  unfold updateFolder at h
  split at h
  · cases h
  · split at h
    · cases h
      exact ⟨rfl,rfl⟩
    · cases h

theorem foldlM_updateFolder_ok (h : us.foldlM updateFolder s = .ok s') :
    s'.folders = s.folders.map (fun g => us.foldl (fun g u => u.apply g) g) := by
  induction us generalizing s with
  | nil =>
    cases h
    simp
  | cons u us ih =>
    rw [List.foldlM_cons, bind_eq_ok] at h
    obtain ⟨t,ht,h⟩ := h
    rw [ih h, (updateFolder_ok ht).1, List.map_map]
    rfl

theorem foldl_apply (hus : (us.map FolderUpdate.id).Nodup) (g : Folder) :
    us.foldl (fun g u => u.apply g) g =
      ((us.find? fun u => u.id = g.id).map fun u => u.apply g).getD g := by
  induction us generalizing g with
  | nil => rfl
  | cons u us ih =>
    rw [List.map_cons, List.nodup_cons] at hus
    rw [List.foldl_cons, ih hus.2, u.apply_id]
    by_cases hu : u.id = g.id
    · -- no later update is one of this row
      have hnone : us.find? (fun v => v.id = g.id) = none := by
        apply List.find?_eq_none.mpr
        intro v hv hvg
        have hvg : v.id = g.id := by simpa using hvg
        exact hus.1 (List.mem_map.mpr ⟨v,hv,hvg.trans hu.symm⟩)
      simp [hnone, hu]
    · have hsame : u.apply g = g := by
        rw [FolderUpdate.apply, if_neg fun h => hu h.symm]
      simp [hsame, hu]

theorem picked_ids {gs : List Folder} {pick : Folder → Option FolderUpdate}
    (hpick : ∀ g u, pick g = some u → u.id = g.id) :
    ((gs.filterMap pick).map FolderUpdate.id).Sublist (gs.map Folder.id) := by
  induction gs with
  | nil => exact List.Sublist.slnil
  | cons g gs ih =>
    cases hg : pick g with
    | none =>
      rw [List.filterMap_cons_none hg]
      exact ih.cons _
    | some u =>
      rw [List.filterMap_cons_some hg, List.map_cons, List.map_cons, hpick g u hg]
      exact ih.cons_cons _

theorem find?_picked {gs : List Folder} {pick : Folder → Option FolderUpdate}
    (hpick : ∀ g u, pick g = some u → u.id = g.id) (hgs : (gs.map Folder.id).Nodup) (hg : g ∈ gs) :
    (gs.filterMap pick).find? (fun u => u.id = g.id) = pick g := by
  induction gs with
  | nil => cases hg
  | cons f gs ih =>
    rw [List.map_cons, List.nodup_cons] at hgs
    rcases List.mem_cons.mp hg with rfl | hg
    · -- the rows after `g` have other ids
      have hrest : (gs.filterMap pick).find? (fun u => u.id = g.id) = none := by
        apply List.find?_eq_none.mpr
        intro u hu hug
        have hug : u.id = g.id := by simpa using hug
        have hmem : u.id ∈ gs.map Folder.id :=
          (picked_ids hpick).subset (List.mem_map.mpr ⟨u,hu,rfl⟩)
        exact hgs.1 (hug ▸ hmem)
      cases hf : pick g with
      | none => rw [List.filterMap_cons_none hf, hrest]
      | some u => rw [List.filterMap_cons_some hf, List.find?_cons_of_pos (by simpa using hpick g u hf)]
    · have hne : f.id ≠ g.id := fun he => hgs.1 (List.mem_map.mpr ⟨g,hg,he.symm⟩)
      rw [← ih hgs.2 hg]
      cases hf : pick f with
      | none => rw [List.filterMap_cons_none hf]
      | some u =>
        have hu : ¬ u.id = g.id := by
          rw [hpick f u hf]
          exact hne
        rw [List.filterMap_cons_some hf, List.find?_cons_of_neg (by simpa using hu)]

theorem flushUpdates_ok (h : flushUpdates us s = .ok s') :
    s'.folders = s.folders.map fun g =>
      (((us.filter fun u => ¬ u.isEmpty).find? fun u => u.id = g.id).map fun u => u.apply g).getD g := by
  simp only [flushUpdates] at h
  split at h
  · cases h
  · rw [foldlM_updateFolder_ok h]
    apply List.map_congr_left
    intro g hg
    have hpick : ∀ (f : Folder) u, (us.filter fun u => ¬ u.isEmpty).find? (fun u => u.id = f.id) = some u →
        u.id = f.id := by
      intro f u hu
      simpa using List.find?_some hu
    rw [foldl_apply ((picked_ids hpick).nodup s.ids_nodup), find?_picked hpick s.ids_nodup hg]

/-- The rows as the code moves them: the folder, and what the pattern of its path selects. -/
def Workspace.moved (s : Workspace) (folder folder' : Folder) (g : Folder) : Folder :=
  if g.id = folder.id then folder'
  else if g ∈ s.getDescendants folder.path then g.rebase folder.path folder'.path
  else g

/-- The rows as they should move: the folder, and the folders whose paths extend its path. -/
def Folder.movedSubtree (folder folder' : Folder) (g : Folder) : Folder :=
  if g.id = folder.id then folder'
  else if folder.path <+: g.path then {g with path := folder'.path ++ g.path.drop folder.path.length}
  else g

theorem relocate_eq (hfolder : folder ∈ s.folders) (hslash : slash <:+ folder.path)
    (hloaded : ∀ g ∈ loaded, g ∈ s.folders) :
    relocate folder folder' loaded (s.getDescendants folder.path) =
      folder.diff folder' :: (s.getDescendants folder.path).map fun d =>
        d.diff (d.rebase folder.path folder'.path) := by
  have hobjects : (s.getDescendants folder.path).map (fun d =>
      (loaded.find? (fun g => g.id = d.id)).getD d) = s.getDescendants folder.path := by
    have hself : ∀ d ∈ s.getDescendants folder.path,
        (loaded.find? (fun g => g.id = d.id)).getD d = d := by
      intro d hd
      cases hl : loaded.find? (fun g => g.id = d.id) with
      | none => rfl
      | some g =>
        have hid : g.id = d.id := by simpa using List.find?_some hl
        have hg : g ∈ s.folders := hloaded g (List.mem_of_find?_eq_some hl)
        exact Workspace.eq_of_id hg ((Workspace.mem_getDescendants hslash).mp hd).1 hid
    calc (s.getDescendants folder.path).map (fun d => (loaded.find? (fun g => g.id = d.id)).getD d)
        = (s.getDescendants folder.path).map (fun d => d) := List.map_congr_left hself
      _ = s.getDescendants folder.path := List.map_id' _
  have hne : ∀ d ∈ s.getDescendants folder.path, d.id ≠ folder.id := by
    intro d hd he
    obtain ⟨hmem,-,hpath⟩ := (Workspace.mem_getDescendants hslash).mp hd
    exact hpath (congrArg Folder.path (Workspace.eq_of_id hmem hfolder he))
  have hany : (s.getDescendants folder.path).any (fun d => d.id = folder.id) = false := by
    simpa using hne
  have hfilter : (s.getDescendants folder.path).filter (fun d => d.id ≠ folder.id) =
      s.getDescendants folder.path := by
    apply List.filter_eq_self.mpr
    simpa using hne
  simp only [relocate, hobjects, hany, hfilter, Bool.false_eq_true, if_false]

theorem dirty_apply {r : Folder} (hall : ∀ u ∈ us, u.id = g.id → u.apply g = r)
    (hclean : (∀ u ∈ us, u.id = g.id → u.isEmpty = true) → r = g) :
    (((us.filter fun u => ¬ u.isEmpty).find? fun u => u.id = g.id).map fun u => u.apply g).getD g =
      r := by
  cases hf : (us.filter fun u => ¬ u.isEmpty).find? (fun u => u.id = g.id) with
  | none =>
    symm
    apply hclean
    intro u hu hid
    by_contra he
    have hmem : u ∈ us.filter fun u => ¬ u.isEmpty := List.mem_filter.mpr ⟨hu,by simpa using he⟩
    exact absurd hid (by simpa using List.find?_eq_none.mp hf u hmem)
  | some u =>
    have hid : u.id = g.id := by simpa using List.find?_some hf
    exact hall u (List.mem_filter.mp (List.mem_of_find?_eq_some hf)).1 hid

/-- What a move makes of the rows. -/
theorem flush_relocate (hfolder : folder ∈ s.folders) (hid : folder'.id = folder.id)
    (hslash : slash <:+ folder.path) (hloaded : ∀ g ∈ loaded, g ∈ s.folders)
    (h : flushUpdates (relocate folder folder' loaded (s.getDescendants folder.path)) s = .ok s') :
    s'.folders = s.folders.map (s.moved folder folder') := by
  rw [flushUpdates_ok h, relocate_eq hfolder hslash hloaded]
  apply List.map_congr_left
  intro g hg
  have hdescendant : ∀ d ∈ s.getDescendants folder.path, d ∈ s.folders ∧ d.id ≠ folder.id := by
    intro d hd
    obtain ⟨hmem,-,hpath⟩ := (Workspace.mem_getDescendants hslash).mp hd
    exact ⟨hmem,fun he => hpath (congrArg Folder.path (Workspace.eq_of_id hmem hfolder he))⟩
  unfold Workspace.moved
  split
  · rename_i hgf
    obtain rfl : g = folder := Workspace.eq_of_id hg hfolder hgf
    apply dirty_apply
    · intro u hu huid
      rcases List.mem_cons.mp hu with rfl | hu
      · exact Folder.diff_apply hid
      · obtain ⟨d,hd,rfl⟩ := List.mem_map.mp hu
        exact absurd huid (hdescendant d hd).2
    · exact fun hclean => Folder.eq_of_diff_isEmpty hid (hclean _ (by simp) rfl)
  · rename_i hgf
    split
    · rename_i hgd
      apply dirty_apply
      · intro u hu huid
        rcases List.mem_cons.mp hu with rfl | hu
        · exact absurd huid.symm hgf
        · obtain ⟨d,hd,rfl⟩ := List.mem_map.mp hu
          obtain rfl : d = g := Workspace.eq_of_id (hdescendant d hd).1 hg huid
          exact Folder.diff_apply rfl
      · intro hclean
        refine Folder.eq_of_diff_isEmpty rfl (hclean _ ?_ rfl)
        exact List.mem_cons_of_mem _ (List.mem_map.mpr ⟨g,hgd,rfl⟩)
    · rename_i hgd
      apply dirty_apply
      · intro u hu huid
        rcases List.mem_cons.mp hu with rfl | hu
        · exact absurd huid.symm hgf
        · obtain ⟨d,hd,rfl⟩ := List.mem_map.mp hu
          obtain rfl : d = g := Workspace.eq_of_id (hdescendant d hd).1 hg huid
          exact absurd hd hgd
      · exact fun _ => rfl

/-- The pattern of the path of `folder` selects its subtree, and what else it selects does not
contain the path. -/
def Workspace.PatternClean (s : Workspace) (folder : Folder) : Prop :=
  ∀ g ∈ s.folders, g.path ≠ folder.path →
    (folder.path <+: g.path → likePrefix folder.path g.path = true) ∧
      (likePrefix folder.path g.path = true → ¬ folder.path <+: g.path → ¬ folder.path <:+: g.path)

/-- One row moves as it should exactly when the pattern is right about it, or nothing moves. -/
theorem moved_eq_iff (hfolder : folder ∈ s.folders) (hslash : slash <:+ folder.path)
    (hg : g ∈ s.folders) (hne : g.path ≠ folder.path) (hpath : folder'.path ≠ folder.path) :
    s.moved folder folder' g = folder.movedSubtree folder' g ↔
      (folder.path <+: g.path → likePrefix folder.path g.path = true) ∧
      (likePrefix folder.path g.path = true → ¬ folder.path <+: g.path →
        ¬ folder.path <:+: g.path) := by
  have hid : g.id ≠ folder.id :=
    fun he => hne (congrArg Folder.path (Workspace.eq_of_id hg hfolder he))
  rw [Workspace.moved, Folder.movedSubtree, if_neg hid, if_neg hid]
  have hselected : g ∈ s.getDescendants folder.path ↔ likePrefix folder.path g.path = true := by
    rw [Workspace.mem_getDescendants hslash]
    exact ⟨fun h => h.2.1,fun h => ⟨hg,h,hne⟩⟩
  by_cases hp : folder.path <+: g.path <;> by_cases hl : likePrefix folder.path g.path = true
  · -- selected in the subtree: the first occurrence is the prefix
    obtain ⟨t,ht⟩ := hp
    have hrebase : g.rebase folder.path folder'.path = {g with path := folder'.path ++ t} := by
      rw [Folder.rebase, ← ht, replaceFirst_prefix]
    have hdrop : g.path.drop folder.path.length = t := by rw [← ht, List.drop_left]
    have hp : folder.path <+: g.path := ⟨t,ht⟩
    rw [if_pos (hselected.mpr hl), if_pos hp, hrebase, hdrop]
    simp [hl, hp]
  · -- missed in the subtree
    rw [if_neg fun h => hl (hselected.mp h), if_pos hp]
    obtain ⟨t,ht⟩ := hp
    have hdrop : g.path.drop folder.path.length = t := by rw [← ht, List.drop_left]
    have hp : folder.path <+: g.path := ⟨t,ht⟩
    have hmoves : g ≠ {g with path := folder'.path ++ g.path.drop folder.path.length} := by
      intro he
      have he := congrArg Folder.path he
      rw [hdrop, ← ht, List.append_cancel_right_eq] at he
      exact hpath he.symm
    simp [hmoves, hl, hp]
  · -- selected elsewhere
    rw [if_pos (hselected.mpr hl), if_neg hp]
    have hreplace : g.rebase folder.path folder'.path = g ↔ ¬ folder.path <:+: g.path := by
      rw [← replaceFirst_eq_self_iff hpath.symm]
      constructor
      · exact fun h => congrArg Folder.path h
      · intro h
        rw [Folder.rebase, h]
    rw [hreplace]
    simp [hp, hl]
  · rw [if_neg fun h => hl (hselected.mp h), if_neg hp]
    simp [hp, hl]

theorem moved_eq_movedSubtree_iff (hfolder : folder ∈ s.folders) (hslash : slash <:+ folder.path) :
    s.folders.map (s.moved folder folder') = s.folders.map (folder.movedSubtree folder') ↔
      folder'.path = folder.path ∨ s.PatternClean folder := by
  rw [List.map_inj_left]
  by_cases hpath : folder'.path = folder.path
  · simp only [hpath, true_or, iff_true]
    intro g _
    have hrebase : (if g ∈ s.getDescendants folder.path then g.rebase folder.path folder.path
        else g) = g := by
      rw [Folder.rebase, replaceFirst_self]
      split <;> rfl
    have hprefix : (if folder.path <+: g.path then
        {g with path := folder.path ++ g.path.drop folder.path.length} else g) = g := by
      split
      · rename_i hp
        rw [List.prefix_iff_eq_append.mp hp]
      · rfl
    rw [Workspace.moved, Folder.movedSubtree, hpath, hrebase, hprefix]
  · simp only [hpath, false_or]
    constructor
    · intro h g hg hne
      exact (moved_eq_iff hfolder hslash hg hne hpath).mp (h g hg)
    · intro h g hg
      by_cases hne : g.path = folder.path
      · obtain rfl : g = folder := Workspace.eq_of_path hg hfolder hne
        rw [Workspace.moved, Folder.movedSubtree, if_pos rfl, if_pos rfl]
      · exact (moved_eq_iff hfolder hslash hg hne hpath).mpr (h g hg hne)

theorem rename_ok {id : Uuid} {newName : Text} (h : (renameFolder id newName).exec s = .ok s') :
    '/' ∉ newName ∧ ∃ folder, s.getFolder id = some folder ∧
      flushUpdates (relocate folder
        {folder with name := newName, path := childPath folder.parentPath newName} []
        (s.getDescendants folder.path)) s = .ok s' := by
  unfold renameFolder at h
  split at h
  · cases h
  · rename_i hname
    refine ⟨hname,?_⟩
    cases hf : s.getFolder id with
    | none => simp [Txn.exec, hf] at h
    | some folder =>
      refine ⟨folder,rfl,?_⟩
      simp only [Txn.exec, hf] at h
      split at h <;> exact h

theorem moveUnder_ok {newParentPath : Text}
    (h : (moveUnder folder newParentPath loaded).exec s = .ok s') :
    flushUpdates (relocate folder {folder with path := childPath newParentPath folder.name} loaded
      (s.getDescendants folder.path)) s = .ok s' := by
  simp only [moveUnder] at h
  split at h
  · simp only [Txn.exec] at h
    split at h
    · cases h
    · exact h
  · exact h

/-- The path of the new parent that `move_folder` is asked for, and the folder that it loads. -/
def Workspace.newParent (s : Workspace) : Option Uuid → Option (Text × List Folder)
  | none => some (slash,[])
  | some parentId => (s.getFolder parentId).map fun g => (g.path,[g])

/-- A successful `move_folder`: its new parent exists outside the subtree. -/
theorem move_ok {id : Uuid} {newParentId : Option Uuid}
    (h : (moveFolder id newParentId).exec s = .ok s') :
    ∃ folder path loaded, s.getFolder id = some folder ∧
      s.newParent newParentId = some (path,loaded) ∧
      (path = slash ∨ ∃ g ∈ s.folders, g.path = path ∧ ¬ folder.path <+: g.path) ∧
      flushUpdates (relocate folder {folder with path := childPath path folder.name} loaded
        (s.getDescendants folder.path)) s = .ok s' := by
  unfold moveFolder at h
  cases hf : s.getFolder id with
  | none => simp [Txn.exec, hf] at h
  | some folder =>
    cases newParentId with
    | none =>
      simp only [Txn.exec, hf] at h
      exact ⟨folder,slash,[],rfl,rfl,.inl rfl,moveUnder_ok h⟩
    | some parentId =>
      cases hp : s.getFolder parentId with
      | none => simp [Txn.exec, hf, hp] at h
      | some newParent =>
        simp only [Txn.exec, hf, hp] at h
        split at h
        · cases h
        · split at h
          · cases h
          · rename_i hprefix
            refine ⟨folder,newParent.path,[newParent],rfl,?_,.inr ⟨newParent,?_,rfl,?_⟩,
              moveUnder_ok h⟩
            · simp only [Workspace.newParent, hp, Option.map_some]
            · exact (Workspace.getFolder_some hp).1
            · simpa only [List.isPrefixOf_iff_prefix] using hprefix

theorem newParent_loaded {newParentId : Option Uuid} {path : Text}
    (h : s.newParent newParentId = some (path,loaded)) : ∀ g ∈ loaded, g ∈ s.folders := by
  cases newParentId with
  | none =>
    cases h
    simp
  | some parentId =>
    obtain ⟨g,hg,he⟩ := Option.map_eq_some_iff.mp h
    cases he
    simpa using (Workspace.getFolder_some hg).1

/-- A successful `delete_folder`: the folders that it deletes. -/
theorem delete_ok {id : Uuid} {recursive : Bool} (h : (deleteFolder id recursive).exec s = .ok s') :
    ∃ folder, s.getFolder id = some folder ∧ (recursive = false → s.hasChildren folder.path = false) ∧
      s'.folders = s.folders.filter fun g =>
        g.id ∉ folder.id :: (if recursive then (s.getDescendants folder.path).map Folder.id else []) := by
  unfold deleteFolder at h
  cases hf : s.getFolder id with
  | none => simp [Txn.exec, hf] at h
  | some folder =>
    refine ⟨folder,rfl,?_⟩
    simp only [Txn.exec, hf] at h
    split at h
    · cases h
    · cases recursive with
      | true =>
        cases h
        exact ⟨by simp,rfl⟩
      | false =>
        simp only [Bool.false_eq_true, if_false, Txn.exec] at h
        split at h
        · cases h
        · rename_i hempty
          cases h
          refine ⟨fun _ => ?_,rfl⟩
          cases hc : s.hasChildren folder.path with
          | false => rfl
          | true => simp [hc] at hempty

/-- What `delete_folder` leaves is what it should exactly when the pattern selects the subtree. -/
theorem deleted_eq_iff (hfolder : folder ∈ s.folders) (hslash : slash <:+ folder.path) :
    (s.folders.filter fun g => g.id ∉ folder.id :: (s.getDescendants folder.path).map Folder.id) =
        s.folders.filter (fun g => ¬ folder.path <+: g.path) ↔
      ∀ g ∈ s.folders, g.path ≠ folder.path →
        (likePrefix folder.path g.path = true ↔ folder.path <+: g.path) := by
  have hkept : ∀ g ∈ s.folders, g.id ∉ folder.id :: (s.getDescendants folder.path).map Folder.id ↔
      g.path ≠ folder.path ∧ ¬ likePrefix folder.path g.path = true := by
    intro g hg
    have hself : g.id = folder.id ↔ g.path = folder.path :=
      ⟨fun h => congrArg Folder.path (Workspace.eq_of_id hg hfolder h),
        fun h => congrArg Folder.id (Workspace.eq_of_path hg hfolder h)⟩
    have hselected : g.id ∈ (s.getDescendants folder.path).map Folder.id ↔
        likePrefix folder.path g.path = true ∧ g.path ≠ folder.path := by
      constructor
      · intro h
        obtain ⟨d,hd,hid⟩ := List.mem_map.mp h
        obtain ⟨hmem,hlike,hne⟩ := (Workspace.mem_getDescendants hslash).mp hd
        rw [← Workspace.eq_of_id hmem hg hid]
        exact ⟨hlike,hne⟩
      · intro h
        exact List.mem_map.mpr ⟨g,(Workspace.mem_getDescendants hslash).mpr ⟨hg,h⟩,rfl⟩
    rw [List.mem_cons, not_or, hself, hselected]
    tauto
  constructor
  · intro h g hg hne
    have hmem : g ∈ s.folders.filter (fun g => g.id ∉ folder.id ::
        (s.getDescendants folder.path).map Folder.id) ↔
        g ∈ s.folders.filter (fun g => ¬ folder.path <+: g.path) := by rw [h]
    simp only [List.mem_filter, decide_eq_true_eq, hkept g hg, hg, hne, true_and, ne_eq,
      not_false_eq_true] at hmem
    exact not_iff_not.mp hmem
  · intro h
    apply List.filter_congr
    intro g hg
    rw [decide_eq_decide, hkept g hg]
    by_cases hne : g.path = folder.path
    · simp [hne]
    · simp only [ne_eq, hne, not_false_eq_true, true_and, h g hg hne]

/-- The subtree operations, whenever they succeed, are exact under a condition on the pattern of the
path, and only then. -/
theorem subtree_operations_exact {id : Uuid} {folder : Folder} (hfolder : s.getFolder id = some folder)
    (hslash : slash <:+ folder.path) :
    (∀ newName, (renameFolder id newName).exec s = .ok s' →
      (s'.folders = s.folders.map (folder.movedSubtree
          {folder with name := newName, path := childPath folder.parentPath newName}) ↔
        childPath folder.parentPath newName = folder.path ∨ s.PatternClean folder)) ∧
    (∀ newParentId path loaded, s.newParent newParentId = some (path,loaded) →
      (moveFolder id newParentId).exec s = .ok s' →
      (s'.folders = s.folders.map (folder.movedSubtree
          {folder with path := childPath path folder.name}) ↔
        childPath path folder.name = folder.path ∨ s.PatternClean folder)) ∧
    ((deleteFolder id true).exec s = .ok s' →
      (s'.folders = s.folders.filter (fun g => ¬ folder.path <+: g.path) ↔
        ∀ g ∈ s.folders, g.path ≠ folder.path →
          (likePrefix folder.path g.path = true ↔ folder.path <+: g.path))) := by
  have hmem := (Workspace.getFolder_some hfolder).1
  refine ⟨?_,?_,?_⟩
  · intro newName h
    obtain ⟨-,f,hf,hflush⟩ := rename_ok h
    obtain rfl : folder = f := Option.some.inj (hfolder.symm.trans hf)
    rw [flush_relocate hmem (by rfl) hslash (by simp) hflush]
    exact moved_eq_movedSubtree_iff hmem hslash
  · intro newParentId path loaded hparent h
    obtain ⟨f,path',loaded',hf,hparent',-,hflush⟩ := move_ok h
    obtain rfl : folder = f := Option.some.inj (hfolder.symm.trans hf)
    obtain ⟨rfl,rfl⟩ := Prod.mk.inj (Option.some.inj (hparent.symm.trans hparent'))
    rw [flush_relocate hmem (by rfl) hslash (newParent_loaded hparent) hflush]
    exact moved_eq_movedSubtree_iff hmem hslash
  · intro h
    obtain ⟨f,hf,-,hrows⟩ := delete_ok h
    obtain rfl : folder = f := Option.some.inj (hfolder.symm.trans hf)
    rw [hrows]
    exact deleted_eq_iff hmem hslash

theorem patternClean_of_plain (h : Plain folder.path) : s.PatternClean folder :=
  fun _ _ _ => ⟨fun hp => (likePrefix_plain h).mpr hp,
    fun hl hp => absurd ((likePrefix_plain h).mp hl) hp⟩

end

/-- Three folders, of which the path of the first is a pattern for the paths of the others. -/
def sampleFolders : Workspace where
  folders := [⟨.ofDigit 1,"a_b".toList,"/a_b/".toList⟩,⟨.ofDigit 2,"axb".toList,"/axb/".toList⟩,
    ⟨.ofDigit 3,"c".toList,"/axb/c/".toList⟩]
  workflows := []
  ids_nodup := by decide
  paths_nodup := by decide

theorem subtree_operations_exact_plain : ∃ s',
    (renameFolder (.ofDigit 2) "d".toList).exec sampleFolders = .ok s' ∧
    s'.folders = sampleFolders.folders.map (Folder.movedSubtree
      ⟨.ofDigit 2,"axb".toList,"/axb/".toList⟩ ⟨.ofDigit 2,"d".toList,"/d/".toList⟩) := by
  have hrename : ((renameFolder (.ofDigit 2) "d".toList).exec sampleFolders).toOption.map
      Workspace.folders = some [⟨.ofDigit 1,"a_b".toList,"/a_b/".toList⟩,
        ⟨.ofDigit 2,"d".toList,"/d/".toList⟩,⟨.ofDigit 3,"c".toList,"/d/c/".toList⟩] := by
    decide
  obtain ⟨s',h,-⟩ := ok_of_observed hrename
  have hfolder : sampleFolders.getFolder (.ofDigit 2) =
      some ⟨.ofDigit 2,"axb".toList,"/axb/".toList⟩ := by decide
  have hplain : Plain "/axb/".toList := by decide
  exact ⟨s',h,((subtree_operations_exact hfolder (by decide)).1 "d".toList h).mpr
    (.inr (patternClean_of_plain hplain))⟩

/-- Deleting `/a_b/` deletes `/axb/` and what is in it. -/
theorem delete_reaches_other_folders : ∃ s', (deleteFolder (.ofDigit 1) true).exec sampleFolders =
    .ok s' ∧ s'.folders ≠ sampleFolders.folders.filter (fun g => ¬ "/a_b/".toList <+: g.path) := by
  have hdelete : ((deleteFolder (.ofDigit 1) true).exec sampleFolders).toOption.map
      Workspace.folders = some [] := by
    decide
  obtain ⟨s',h,hrows⟩ := ok_of_observed hdelete
  refine ⟨s',h,?_⟩
  rw [hrows]
  decide

end Allama
