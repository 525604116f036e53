import Allama.StreamIds

/-! The keys under which the results of the actions of a run are stored (`storage/object.py`). -/
namespace Allama
namespace StreamIds

def actionKey (workspaceId wfExecId streamId ref : String) : String :=
  workspaceId ++ "/" ++ wfExecId ++ "/actions/" ++ streamId ++ "/" ++ ref ++ ".json"

def actionCollectionPrefix (workspaceId wfExecId streamId ref : String) : String :=
  workspaceId ++ "/" ++ wfExecId ++ "/actions/" ++ streamId ++ "/" ++ ref

/-- The keys of the objects that are stored for an action in a stream: that of its result, and those at and below the
prefix of its collections. -/
def IsObjectKey (workspaceId wfExecId streamId ref key : String) : Prop :=
  key = actionKey workspaceId wfExecId streamId ref ∨ key = actionCollectionPrefix workspaceId wfExecId streamId ref ∨
    ∃ name, key = actionCollectionPrefix workspaceId wfExecId streamId ref ++ "/" ++ name

theorem append_cons_inj_of_first {α : Type} {p : α → Prop} {as as' bs bs' : List α} {b b' : α} (ha : ∀ a ∈ as, p a)
    (ha' : ∀ a ∈ as', p a) (hb : ¬ p b) (hb' : ¬ p b') (h : as ++ b :: bs = as' ++ b' :: bs') : as = as' ∧ b = b' := by
  induction as generalizing as' with
  | nil =>
    cases as' with
    | nil => exact ⟨rfl,(List.cons.inj h).1⟩
    | cons a' as' =>
      have hhead : b = a' := (List.cons.inj h).1
      exact absurd (ha' b (by rw [hhead]; exact List.mem_cons_self)) hb
  | cons a as ih =>
    cases as' with
    | nil =>
      have hhead : a = b' := (List.cons.inj h).1
      exact absurd (ha b' (by rw [hhead]; exact List.mem_cons_self)) hb'
    | cons a' as' =>
      rw [List.forall_mem_cons] at ha ha'
      obtain ⟨hhead,htail⟩ := List.cons.inj h
      obtain ⟨hinit,hfirst⟩ := ih ha.2 ha'.2 htail
      exact ⟨by rw [hhead, hinit],hfirst⟩

def Indexed (id : String) : Prop := ∀ segment ∈ streams id, ':' ∈ segment

def runPrefix (workspaceId wfExecId : String) : String := workspaceId ++ "/" ++ wfExecId ++ "/actions/"

def json : Text := ".json".toList

variable {workspaceId wfExecId id id' ref ref' key : String}

theorem segments_of_isObjectKey (hslash : '/' ∉ ref.toList) (h : IsObjectKey workspaceId wfExecId id ref key) :
    ∃ t last rest, key.toList = (runPrefix workspaceId wfExecId).toList ++ t ∧
      t.splitOn '/' = streams id ++ last :: rest ∧ (last = ref.toList ∨ last = ref.toList ++ json) := by
  have hsplit : ∀ u : Text, '/' ∉ u → (id.toList ++ '/' :: u).splitOn '/' = streams id ++ [u] := by
    intro u hu
    rw [List.splitOn_append_cons_self, List.splitOn_eq_singleton hu]
    rfl
  rcases h with rfl | rfl | ⟨name,rfl⟩
  · have hjson : '/' ∉ ref.toList ++ json := by
      rw [List.mem_append]
      exact fun hmem => hmem.elim hslash (by decide)
    refine ⟨id.toList ++ '/' :: (ref.toList ++ json),_,[],?_,hsplit _ hjson,.inr rfl⟩
    simp [actionKey, runPrefix, json]
  · refine ⟨id.toList ++ '/' :: ref.toList,_,[],?_,hsplit _ hslash,.inl rfl⟩
    simp [actionCollectionPrefix, runPrefix]
  · refine ⟨id.toList ++ '/' :: (ref.toList ++ '/' :: name.toList),ref.toList,name.toList.splitOn '/',?_,?_,.inl rfl⟩
    · simp [actionCollectionPrefix, runPrefix]
    · rw [List.splitOn_append_cons_self, List.splitOn_append_cons_self, List.splitOn_eq_singleton hslash]
      rfl

theorem objectKey_unique (hid : Indexed id) (hid' : Indexed id') (href : isSlug ref) (href' : isSlug ref')
    (h : IsObjectKey workspaceId wfExecId id ref key) (h' : IsObjectKey workspaceId wfExecId id' ref' key) :
    id = id' ∧ ref = ref' := by
  obtain ⟨hslash,hcolon,hdot⟩ := notMem_of_isSlug href
  obtain ⟨hslash',hcolon',hdot'⟩ := notMem_of_isSlug href'
  obtain ⟨t,last,rest,hkey,hparts,hlast⟩ := segments_of_isObjectKey hslash h
  obtain ⟨t',last',rest',hkey',hparts',hlast'⟩ := segments_of_isObjectKey hslash' h'
  have hplain : ∀ {r last : Text}, ':' ∉ r → last = r ∨ last = r ++ json → ':' ∉ last := by
    intro r last hr hl
    rcases hl with rfl | rfl
    · exact hr
    · rw [List.mem_append]
      exact fun hmem => hmem.elim hr (by decide)
  have hsame : streams id ++ last :: rest = streams id' ++ last' :: rest' := by
    rw [← hparts, ← hparts', List.append_cancel_left (hkey.symm.trans hkey')]
  -- the segment of the ref is the first without a colon
  obtain ⟨hstreams,hrefs⟩ := append_cons_inj_of_first hid hid' (hplain hcolon hlast) (hplain hcolon' hlast') hsame
  refine ⟨streams_injective hstreams,String.toList_inj.mp ?_⟩
  rcases hlast with rfl | rfl <;> rcases hlast' with rfl | rfl
  · exact hrefs
  · exact absurd (by rw [hrefs]; simp [json]) hdot
  · exact absurd (by rw [← hrefs]; simp [json]) hdot'
  · exact List.append_cancel_right hrefs

end StreamIds
end Allama
