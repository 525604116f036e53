import Allama.FolderSubtrees

/-! The folders of a workspace form a tree along the calls that change them. -/
namespace Allama
open Checked LikePatterns ReadCommitted

/-- The hierarchy that the paths stand for. -/
structure FolderTree (folders : List Folder) : Prop where
  unique : (folders.map Folder.path).Nodup
  slashes : ∀ f ∈ folders, slash <+: f.path ∧ slash <:+ f.path
  parent : ∀ f ∈ folders, ∃ p, f.path = p ++ f.name ++ slash ∧
    (p = slash ∨ ∃ g ∈ folders, g.path = p)
  ancestors : ∀ f ∈ folders, ∀ p, p ++ slash <+: f.path → p ++ slash ≠ f.path → p ++ slash ≠ slash →
    ∃ g ∈ folders, g.path = p ++ slash

/-- Every folder is in the root or in a folder, under a name without slashes. -/
def Rooted (folders : List Folder) : Prop :=
  ∀ f ∈ folders, '/' ∉ f.name ∧ ∃ p, f.path = p ++ f.name ++ slash ∧
    (p = slash ∨ ∃ g ∈ folders, g.path = p)

theorem prefix_parent {q p name : Text} (hname : '/' ∉ name) (hslash : slash <:+ q)
    (hq : q <+: p ++ name ++ slash) (hne : q ≠ p ++ name ++ slash) : q <+: p := by
  have hp : p <+: p ++ name ++ slash := ⟨name ++ slash,by rw [List.append_assoc]⟩
  rcases List.prefix_or_prefix_of_prefix hq hp with h | ⟨t,rfl⟩
  · exact h
  · -- the rest lies in the name, which has no slash at its end
    rw [List.append_assoc, List.prefix_append_right_inj] at hq
    have ht : t <+: name := by
      rcases List.prefix_concat_iff.mp hq with h | h
      · exact absurd (by rw [h, List.append_assoc]; rfl) hne
      · exact h
    cases List.eq_nil_or_concat t with
    | inl hnil => rw [hnil, List.append_nil]
    | inr hlast =>
      obtain ⟨u,c,rfl⟩ := hlast
      obtain ⟨w,hw⟩ := hslash
      rw [List.concat_eq_append, ← List.append_assoc] at hw
      have hc : slash = [c] := (List.append_inj' hw rfl).2
      have hmem : '/' ∈ u.concat c := by
        rw [List.concat_eq_append, ← hc]
        simp [slash]
      exact absurd (ht.subset hmem) hname

section
variable {folders : List Folder}

theorem Rooted.slash_prefix (h : Rooted folders) {f : Folder} (hf : f ∈ folders) :
    slash <+: f.path := by
  induction hn : f.path.length using Nat.strong_induction_on generalizing f with
  | _ n ih =>
    obtain ⟨-,p,hpath,hp⟩ := h f hf
    have hprefix : p <+: f.path := ⟨f.name ++ slash,by rw [hpath, List.append_assoc]⟩
    rcases hp with rfl | ⟨g,hg,rfl⟩
    · exact hprefix
    · have hshort : g.path.length < n := by
        rw [← hn, hpath]
        simp only [List.length_append, slash, List.length_singleton]
        omega
      exact (ih _ hshort hg rfl).trans hprefix

theorem Rooted.slash_suffix (h : Rooted folders) {f : Folder} (hf : f ∈ folders) :
    slash <:+ f.path := by
  obtain ⟨-,p,hpath,-⟩ := h f hf
  exact ⟨p ++ f.name,hpath.symm⟩

theorem Rooted.two_le_length (h : Rooted folders) {f : Folder} (hf : f ∈ folders) :
    2 ≤ f.path.length := by
  obtain ⟨-,p,hpath,hp⟩ := h f hf
  have hone : 1 ≤ p.length := by
    rcases hp with rfl | ⟨g,hg,rfl⟩
    · exact le_refl 1
    · exact (h.slash_prefix hg).length_le
  rw [hpath, List.length_append, List.length_append, slash, List.length_singleton]
  omega

theorem Rooted.ancestor (h : Rooted folders) {f : Folder} (hf : f ∈ folders) {q : Text}
    (hslash : slash <:+ q) (hq : q <+: f.path) (hne : q ≠ f.path) (hroot : q ≠ slash) :
    ∃ g ∈ folders, g.path = q := by
  induction hn : f.path.length using Nat.strong_induction_on generalizing f with
  | _ n ih =>
    obtain ⟨hname,p,hpath,hp⟩ := h f hf
    have hqp : q <+: p := by
      apply prefix_parent hname hslash
      · rwa [← hpath]
      · rwa [← hpath]
    rcases hp with rfl | ⟨g,hg,rfl⟩
    · -- a prefix of the root that ends in a slash is the root
      exact absurd (hqp.eq_of_length_le hslash.length_le) hroot
    · by_cases hqg : q = g.path
      · exact ⟨g,hg,hqg.symm⟩
      · have hshort : g.path.length < n := by
          rw [← hn, hpath]
          simp only [List.length_append, slash, List.length_singleton]
          omega
        exact ih _ hshort hg hqp hqg rfl

theorem Rooted.folderTree (h : Rooted folders) (hunique : (folders.map Folder.path).Nodup) :
    FolderTree folders where
  unique := hunique
  slashes := fun _ hf => ⟨h.slash_prefix hf,h.slash_suffix hf⟩
  parent := fun f hf => (h f hf).2
  ancestors := fun _ hf p hp hne hroot => h.ancestor hf (List.suffix_append p slash) hp hne hroot

theorem intercalate_concat {sep x : Text} {xs : List Text} (h : xs ≠ []) :
    sep.intercalate (xs ++ [x]) = sep.intercalate xs ++ sep ++ x := by
  induction xs with
  | nil => exact absurd rfl h
  | cons y ys ih =>
    cases ys with
    | nil => simp
    | cons z zs =>
      have ih := ih (List.cons_ne_nil z zs)
      rw [List.cons_append] at ih
      rw [List.cons_append, List.cons_append, List.intercalate_cons_cons, ih,
        List.intercalate_cons_cons]
      simp only [List.append_assoc]

/-- The parent of a renamed folder is the root or a folder above it. -/
theorem Rooted.parentPath (h : Rooted folders) {f : Folder} (hf : f ∈ folders) :
    f.parentPath = slash ∨ ∃ g ∈ folders, g.path = f.parentPath ∧ ¬ f.path <+: g.path := by
  unfold Folder.parentPath
  split
  · exact .inl rfl
  · generalize hbody : f.path.rdropWhile (· = '/') = body
    generalize hparts : body.splitOn '/' = parts
    by_cases hlen : parts.length ≤ 2
    · rw [if_pos hlen]
      exact .inl rfl
    rw [if_neg hlen]
    -- what is cut off is the last part, and the slashes after it
    have hcut : slash.intercalate parts.dropLast ++ slash <+: body := by
      have hne : parts ≠ [] := by
        rintro rfl
        simp at hlen
      have hdrop : parts.dropLast ≠ [] := by
        intro he
        have := congrArg List.length he
        simp only [List.length_dropLast, List.length_nil] at this
        omega
      have hjoin : slash.intercalate parts = body := by
        rw [← hparts]
        exact List.intercalate_splitOn '/'
      rw [← List.dropLast_append_getLast hne, intercalate_concat hdrop] at hjoin
      exact ⟨_,hjoin⟩
    have hbodyprefix : body <+: f.path := hbody ▸ List.rdropWhile_prefix _ _
    have hshort : body.length < f.path.length := by
      obtain ⟨-,p,hpath,-⟩ := h f hf
      have hle : body.length ≤ (p ++ f.name).length := by
        rw [← hbody, hpath, slash, List.rdropWhile_concat_pos _ _ _ (by simp)]
        exact (List.rdropWhile_prefix _ _).length_le
      rw [hpath, List.length_append]
      simp only [slash, List.length_singleton]
      omega
    have hlt : (slash.intercalate parts.dropLast ++ slash).length < f.path.length :=
      hcut.length_le.trans_lt hshort
    by_cases hroot : slash.intercalate parts.dropLast ++ slash = slash
    · exact .inl hroot
    · obtain ⟨g,hg,hgp⟩ := h.ancestor hf (List.suffix_append _ slash) (hcut.trans hbodyprefix)
        (fun he => by rw [he] at hlt; omega) hroot
      refine .inr ⟨g,hg,hgp,?_⟩
      intro hp
      have := hp.length_le
      rw [hgp] at this
      omega

end

section
variable {s s' : Workspace}

/-- The rows stay rooted when a subtree moves under a parent outside of it. -/
theorem Rooted.movedSubtree (h : Rooted s.folders) {folder folder' : Folder}
    (hfolder : folder ∈ s.folders) (hname : '/' ∉ folder'.name)
    {p : Text} (hpath : folder'.path = p ++ folder'.name ++ slash)
    (hp : p = slash ∨ ∃ g ∈ s.folders, g.path = p ∧ ¬ folder.path <+: g.path) :
    Rooted (s.folders.map (folder.movedSubtree folder')) := by
  have hslash : slash <:+ folder.path := h.slash_suffix hfolder
  have hself : folder.movedSubtree folder' folder = folder' := by
    rw [Folder.movedSubtree, if_pos rfl]
  have hstays : ∀ g ∈ s.folders, ¬ folder.path <+: g.path → folder.movedSubtree folder' g = g := by
    intro g hg hprefix
    have hne : g.id ≠ folder.id := by
      intro he
      rw [Workspace.eq_of_id hg hfolder he] at hprefix
      exact hprefix (List.prefix_refl _)
    rw [Folder.movedSubtree, if_neg hne, if_neg hprefix]
  have hbelow : ∀ g ∈ s.folders, ∀ t, g.path = folder.path ++ t →
      (folder.movedSubtree folder' g).path = folder'.path ++ t := by
    intro g hg t ht
    by_cases hgf : g.id = folder.id
    · obtain rfl : g = folder := Workspace.eq_of_id hg hfolder hgf
      have ht : t = [] := by simpa using ht
      rw [hself, ht, List.append_nil]
    · rw [Folder.movedSubtree, if_neg hgf, if_pos ⟨t,ht.symm⟩]
      simp only [ht, List.drop_left]
  intro f' hf'
  obtain ⟨g,hg,rfl⟩ := List.mem_map.mp hf'
  by_cases hgf : g = folder
  · -- the folder itself
    subst hgf
    rw [hself]
    refine ⟨hname,p,hpath,?_⟩
    rcases hp with hroot | ⟨g',hg',hgp,hout⟩
    · exact .inl hroot
    · exact .inr ⟨g',List.mem_map.mpr ⟨g',hg',hstays g' hg' hout⟩,hgp⟩
  obtain ⟨hgname,q,hgpath,hq⟩ := h g hg
  by_cases hprefix : folder.path <+: g.path
  · -- a folder below: its parent is below, too
    have hne : folder.path ≠ g.path := fun he => hgf (Workspace.eq_of_path hg hfolder he.symm)
    have hfq : folder.path <+: q := by
      apply prefix_parent hgname hslash
      · rwa [← hgpath]
      · rwa [← hgpath]
    obtain ⟨t,rfl⟩ := hfq
    have hpath' := hbelow g hg (t ++ g.name ++ slash) (by rw [hgpath]; simp only [List.append_assoc])
    have hsame : (folder.movedSubtree folder' g).name = g.name := by
      have hid : g.id ≠ folder.id := fun he => hgf (Workspace.eq_of_id hg hfolder he)
      rw [Folder.movedSubtree, if_neg hid, if_pos hprefix]
    refine ⟨hsame ▸ hgname,folder'.path ++ t,?_,.inr ?_⟩
    · rw [hpath', hsame]
      simp only [List.append_assoc]
    · rcases hq with hroot | ⟨g',hg',hgp⟩
      · -- the root is no folder
        have hlong := congrArg List.length hroot
        have htwo := h.two_le_length hfolder
        rw [List.length_append, slash, List.length_singleton] at hlong
        omega
      · exact ⟨_,List.mem_map.mpr ⟨g',hg',rfl⟩,hbelow g' hg' t hgp⟩
  · -- a folder elsewhere: its parent is elsewhere, too
    rw [hstays g hg hprefix]
    refine ⟨hgname,q,hgpath,?_⟩
    rcases hq with hroot | ⟨g',hg',hgp⟩
    · exact .inl hroot
    · refine .inr ⟨g',List.mem_map.mpr ⟨g',hg',hstays g' hg' ?_⟩,hgp⟩
      intro hg'prefix
      apply hprefix
      refine hg'prefix.trans ⟨g.name ++ slash,?_⟩
      rw [hgp, hgpath, List.append_assoc]

/-- The pattern of the path of `folder` selects all that is below it. -/
def Workspace.PatternCovers (s : Workspace) (folder : Folder) : Prop :=
  ∀ g ∈ s.folders, g.path ≠ folder.path → folder.path <+: g.path →
    likePrefix folder.path g.path = true

theorem childPath_eq (parentPath name : Text) : childPath parentPath name = parentPath ++ name ++ slash := by
  unfold childPath
  split
  · rfl
  · rename_i h
    rw [not_not.mp h]

theorem createUnder_keeps (h : Rooted s.folders) {id : Uuid} {name parentPath : Text}
    (hname : '/' ∉ name) (hparent : parentPath = slash ∨ ∃ g ∈ s.folders, g.path = parentPath)
    (hs : (createUnder id name parentPath).exec s = .ok s') : Rooted s'.folders := by
  have hslash : withSlash parentPath = parentPath := by
    apply withSlash_of_suffix
    rcases hparent with rfl | ⟨g,hg,rfl⟩
    · exact List.suffix_refl slash
    · exact h.slash_suffix hg
  simp only [createUnder, Txn.exec, hslash, childPath_eq] at hs
  split at hs
  · cases hs
  · simp only [Txn.exec, insertFolder] at hs
    split at hs
    · cases hs
      have hold : ∀ p, (∃ g ∈ s.folders, g.path = p) →
          ∃ g ∈ s.folders ++ [⟨id,name,parentPath ++ name ++ slash⟩], g.path = p := by
        intro p hp
        obtain ⟨g,hg,hgp⟩ := hp
        exact ⟨g,List.mem_append_left _ hg,hgp⟩
      intro f hf
      rcases List.mem_append.mp hf with hf | hf
      · obtain ⟨hn,p,hpath,hp⟩ := h f hf
        exact ⟨hn,p,hpath,hp.imp_right (hold p)⟩
      · obtain rfl := List.mem_singleton.mp hf
        exact ⟨hname,parentPath,rfl,hparent.imp_right (hold parentPath)⟩
    · cases hs

theorem createFolder_keeps (h : Rooted s.folders) {id : Uuid} {name parentPath : Text}
    (hs : (createFolder id name parentPath).exec s = .ok s') : Rooted s'.folders := by
  unfold createFolder at hs
  split at hs
  · cases hs
  · rename_i hname
    split at hs
    · simp only [Txn.exec] at hs
      split at hs
      · rename_i hparent
        obtain ⟨g,hg,hgp⟩ := List.any_eq_true.mp hparent
        exact createUnder_keeps h hname (.inr ⟨g,hg,by simpa using hgp⟩) hs
      · cases hs
    · rename_i hroot
      exact createUnder_keeps h hname (.inl (not_not.mp hroot)) hs

theorem renameFolder_keeps (h : Rooted s.folders) {id : Uuid} {newName : Text}
    (hclean : ∀ folder, s.getFolder id = some folder →
      childPath folder.parentPath newName = folder.path ∨ s.PatternClean folder)
    (hs : (renameFolder id newName).exec s = .ok s') : Rooted s'.folders := by
  obtain ⟨hname,folder,hf,hflush⟩ := rename_ok hs
  have hfolder := (Workspace.getFolder_some hf).1
  have hslash := h.slash_suffix hfolder
  rw [flush_relocate hfolder (by rfl) hslash (by simp) hflush,
    (moved_eq_movedSubtree_iff hfolder hslash).mpr (hclean folder hf)]
  apply h.movedSubtree hfolder
  · exact hname
  · exact childPath_eq folder.parentPath newName
  · exact h.parentPath hfolder

theorem moveFolder_keeps (h : Rooted s.folders) {id : Uuid} {newParentId : Option Uuid}
    (hclean : ∀ folder path loaded, s.getFolder id = some folder →
      s.newParent newParentId = some (path,loaded) →
      childPath path folder.name = folder.path ∨ s.PatternClean folder)
    (hs : (moveFolder id newParentId).exec s = .ok s') : Rooted s'.folders := by
  obtain ⟨folder,path,loaded,hf,hparent,houtside,hflush⟩ := move_ok hs
  have hfolder := (Workspace.getFolder_some hf).1
  have hslash := h.slash_suffix hfolder
  rw [flush_relocate hfolder (by rfl) hslash (newParent_loaded hparent) hflush,
    (moved_eq_movedSubtree_iff hfolder hslash).mpr (hclean folder path loaded hf hparent)]
  apply h.movedSubtree hfolder
  · exact (h folder hfolder).1
  · exact childPath_eq path folder.name
  · exact houtside

theorem deleteFolder_keeps (h : Rooted s.folders) {id : Uuid} {recursive : Bool}
    (hclean : ∀ folder, s.getFolder id = some folder → s.PatternCovers folder)
    (hs : (deleteFolder id recursive).exec s = .ok s') : Rooted s'.folders := by
  obtain ⟨folder,hf,hempty,hrows⟩ := delete_ok hs
  have hfolder := (Workspace.getFolder_some hf).1
  have hslash := h.slash_suffix hfolder
  have hselects : ∀ g ∈ s.folders, likePrefix folder.path g.path = true → g ≠ folder →
      recursive = true ∧ g ∈ s.getDescendants folder.path := by
    intro g hg hlike hne
    have hpath : g.path ≠ folder.path := fun he => hne (Workspace.eq_of_path hg hfolder he)
    have hmem : g ∈ s.getDescendants folder.path :=
      (Workspace.mem_getDescendants hslash).mpr ⟨hg,hlike,hpath⟩
    refine ⟨?_,hmem⟩
    -- an empty folder has nothing that the pattern selects
    by_contra hr
    have hchildren := hempty (by simpa using hr)
    simp only [Workspace.hasChildren, decide_eq_false_iff_not, not_lt, Nat.le_zero_eq,
      List.length_eq_zero_iff] at hchildren
    rw [hchildren] at hmem
    cases hmem
  let removed := folder.id :: (if recursive then (s.getDescendants folder.path).map Folder.id else [])
  have hbelow : ∀ g ∈ s.folders, ∀ g' ∈ s.folders, g.path <+: g'.path → g.id ∈ removed →
      g'.id ∈ removed := by
    intro g hg g' hg' hprefix hrem
    by_cases hgf : g' = folder
    · rw [hgf]
      exact List.mem_cons_self ..
    have hlike : likePrefix folder.path g'.path = true := by
      rcases List.mem_cons.mp hrem with he | hd
      · obtain rfl : g = folder := Workspace.eq_of_id hg hfolder he
        exact hclean g hf g' hg' (fun he => hgf (Workspace.eq_of_path hg' hfolder he)) hprefix
      · -- the pattern selects what is below what it selects
        split at hd
        · obtain ⟨d,hd,hid⟩ := List.mem_map.mp hd
          obtain ⟨hdmem,hdlike,-⟩ := (Workspace.mem_getDescendants hslash).mp hd
          obtain rfl : d = g := Workspace.eq_of_id hdmem hg hid
          obtain ⟨w,hw⟩ := hslash
          obtain ⟨t,ht⟩ := hprefix
          rw [← ht]
          rw [← hw] at hdlike ⊢
          exact likePrefix_extend (by decide) hdlike t
        · cases hd
    obtain ⟨hr,hmem⟩ := hselects g' hg' hlike hgf
    apply List.mem_cons_of_mem
    rw [if_pos hr]
    exact List.mem_map_of_mem hmem
  rw [hrows]
  intro f hf
  obtain ⟨hf,hkept⟩ := List.mem_filter.mp hf
  obtain ⟨hname,p,hpath,hp⟩ := h f hf
  refine ⟨hname,p,hpath,?_⟩
  rcases hp with hroot | ⟨g,hg,rfl⟩
  · exact .inl hroot
  · refine .inr ⟨g,List.mem_filter.mpr ⟨hg,?_⟩,rfl⟩
    have hprefix : g.path <+: f.path := ⟨f.name ++ slash,by rw [hpath, List.append_assoc]⟩
    have hkept : f.id ∉ removed := by simpa only [decide_eq_true_eq] using hkept
    simpa only [decide_eq_true_eq] using fun hrem => hkept (hbelow g hg f hf hprefix hrem)

theorem ensureSegments_keeps {uuid4 : Text → Uuid} {segments : List Text} {current : Text}
    (h : Rooted s.folders) (hs : ensureSegments uuid4 current segments s = .ok s') :
    Rooted s'.folders := by
  induction segments generalizing current s with
  | nil =>
    cases hs
    exact h
  | cons segment segments ih =>
    rw [ensureSegments] at hs
    split at hs
    · exact ih h hs
    · dsimp only at hs
      split at hs
      · exact ih h hs
      · obtain ⟨t,ht,hs⟩ := bind_eq_ok.mp hs
        exact ih (createFolder_keeps h ht) hs

theorem ensureFolderExists_keeps {uuid4 : Text → Uuid} {folderPath : Text} (h : Rooted s.folders)
    (hs : ensureFolderExists uuid4 folderPath s = .ok s') : Rooted s'.folders := by
  unfold ensureFolderExists at hs
  split at hs
  · cases hs
  · obtain ⟨t,ht,hs⟩ := bind_eq_ok.mp hs
    split at hs
    · cases hs
    · cases hs
      exact ensureSegments_keeps h ht

end

/-- The calls that change the folders, those of the import included. -/
inductive FolderCall
  | operation (op : FolderOperation)
  | ensure (uuid4 : Text → Uuid) (folderPath : Text)

def FolderCall.call : FolderCall → Workspace → Except FolderError Workspace
  | .operation op, s => op.txn.exec s
  | .ensure uuid4 folderPath, s => ensureFolderExists uuid4 folderPath s

/-- A call, rolled back when it fails. -/
def folderStep (s : Workspace) (c : FolderCall) : Option Workspace := some ((c.call s).toOption.getD s)

/-- The pattern of the path selects what the operation relies on. -/
def CleanOperationOn (s : Workspace) : FolderOperation → Prop
  | .create _ _ _ => True
  | .rename id newName => ∀ folder, s.getFolder id = some folder →
      childPath folder.parentPath newName = folder.path ∨ s.PatternClean folder
  | .move id newParentId => ∀ folder path loaded, s.getFolder id = some folder →
      s.newParent newParentId = some (path,loaded) →
      childPath path folder.name = folder.path ∨ s.PatternClean folder
  | .delete id _ => ∀ folder, s.getFolder id = some folder → s.PatternCovers folder

def CleanFolderCall (s : Workspace) : FolderCall → Prop
  | .operation op => CleanOperationOn s op
  | .ensure _ _ => True

section
variable {s s' : Workspace}

theorem txn_keeps (h : Rooted s.folders) {op : FolderOperation} (hclean : CleanOperationOn s op)
    (hs : op.txn.exec s = .ok s') : Rooted s'.folders := by
  cases op with
  | create id name parentPath => exact createFolder_keeps h hs
  | rename id newName => exact renameFolder_keeps h hclean hs
  | move id newParentId => exact moveFolder_keeps h hclean hs
  | delete id recursive => exact deleteFolder_keeps h hclean hs

theorem folderStep_keeps (h : Rooted s.folders) {c : FolderCall} (hclean : CleanFolderCall s c)
    (hs : folderStep s c = some s') : Rooted s'.folders := by
  cases hs
  cases hc : c.call s with
  | error e => exact h
  | ok t =>
    cases c with
    | operation op => exact txn_keeps h hclean hc
    | ensure uuid4 folderPath => exact ensureFolderExists_keeps h hc

/-- In every run of calls whose patterns are clean, the folders form a tree, and a failing call leaves
them as they are. -/
theorem folders_form_tree (hrun : Runs.Reaches folderStep CleanFolderCall Workspace.empty s) :
    FolderTree s.folders ∧ ∀ c e, c.call s = .error e → folderStep s c = some s := by
  constructor
  · have hrooted : Rooted s.folders := by
      apply hrun.invariant (P := fun s => Rooted s.folders)
      · intro f hf
        cases hf
      · exact fun _ _ _ _ h hclean hs => folderStep_keeps h hclean hs
    exact hrooted.folderTree s.paths_nodup
  · intro c e hc
    rw [folderStep, hc]
    rfl

end

/-- A folder `name` with a folder `c` in it. -/
def sampleCalls (name : Text) : List FolderCall :=
  [.operation (.create (.ofDigit 1) name slash),
    .operation (.create (.ofDigit 2) "c".toList (slash ++ name ++ slash))]

def runCalls (s : Workspace) (calls : List FolderCall) : Workspace :=
  calls.foldl (fun s c => (c.call s).toOption.getD s) s

theorem reaches_runCalls {calls : List FolderCall} (s : Workspace)
    (h : ∀ c ∈ calls, ∀ t, CleanFolderCall t c) :
    Runs.Reaches folderStep CleanFolderCall s (runCalls s calls) := by
  induction calls generalizing s with
  | nil => exact .refl
  | cons c calls ih =>
    have hfirst : Runs.Reaches folderStep CleanFolderCall s ((c.call s).toOption.getD s) :=
      .step .refl (h c (by simp) s) rfl
    exact hfirst.trans (ih _ fun d hd => h d (List.mem_cons_of_mem c hd))

theorem folders_form_tree_rename : ∃ s, Runs.Reaches folderStep CleanFolderCall Workspace.empty s ∧
    s.folders = [⟨.ofDigit 1,"b".toList,"/b/".toList⟩,⟨.ofDigit 2,"c".toList,"/b/c/".toList⟩] ∧
    FolderTree s.folders := by
  have hcreate : Runs.Reaches folderStep CleanFolderCall Workspace.empty
      (runCalls Workspace.empty (sampleCalls "a".toList)) := by
    apply reaches_runCalls
    intro c hc t
    simp only [sampleCalls, List.mem_cons, List.not_mem_nil, or_false] at hc
    rcases hc with rfl | rfl <;> trivial
  have hclean : CleanFolderCall (runCalls Workspace.empty (sampleCalls "a".toList))
      (.operation (.rename (.ofDigit 1) "b".toList)) := by
    intro folder hf
    have hfound : (runCalls Workspace.empty (sampleCalls "a".toList)).getFolder (.ofDigit 1) =
        some ⟨.ofDigit 1,"a".toList,"/a/".toList⟩ := by decide
    obtain rfl := Option.some.inj (hfound.symm.trans hf)
    exact .inr (patternClean_of_plain (by decide))
  have hrun := hcreate.step hclean rfl
  refine ⟨_,hrun,?_,(folders_form_tree hrun).1⟩
  decide

/-- A folder whose name has a backslash is deleted without what is in it. -/
theorem deleted_parent_leaves_orphan : ∃ s, Runs.Reachable folderStep Workspace.empty s ∧
    ¬ FolderTree s.folders := by
  have hrun : (Runs.follow folderStep Workspace.empty (sampleCalls ['a','\\','b'] ++
      [.operation (.delete (.ofDigit 1) false)])).map Workspace.folders =
        some [⟨.ofDigit 2,"c".toList,['/','a','\\','b','/','c','/']⟩] := by
    decide
  obtain ⟨s,hs,hrows⟩ := Runs.reachable_of_observed hrun
  refine ⟨s,hs,?_⟩
  intro h
  rw [hrows] at h
  obtain ⟨g,hg,hpath⟩ := h.ancestors _ (List.mem_singleton_self _) ['/','a','\\','b']
    (by decide) (by decide) (by decide)
  obtain rfl := List.mem_singleton.mp hg
  revert hpath
  decide

end Allama
