import Allama.Checked
import Allama.Runs
import Allama.WorkflowGraph

/-! The edges of a workflow graph along its operations: they stay between existing actions. -/
namespace Allama
open Checked
section
variable (cast : String → Option Uuid) (slug : String → String)

inductive GraphEvent
  | operations (baseVersion : ℤ) (ops : List GraphOperation)
  | deleteAction (action : Action)

/-- An accepted batch, or the deletion of an action of the workflow. -/
def graphStep (w : Workflow) : GraphEvent → Option Workflow
  | .operations baseVersion ops => (applyOperations cast w baseVersion ops).toOption
  | .deleteAction action => if (w.find? action.id).isSome then some (deleteAction w action) else none

/-- The edges join existing actions, one edge from each source, and so do the dependencies built
from them. -/
structure Workflow.EdgesSound (w : Workflow) : Prop where
  live : ∀ a ∈ w.actions, ∀ e ∈ a.upstreamEdges, e.sourceType = .udf →
    ∃ b ∈ w.actions, Uuid.parse e.sourceId = some b.id
  single : ∀ a ∈ w.actions, (a.upstreamEdges.map fun e => Uuid.parse e.sourceId).Nodup
  dependsOn_nodup : ∀ a ∈ w.actions, (w.dependsOn slug a).Nodup
  dependsOn_live : ∀ a ∈ w.actions, ∀ d ∈ w.dependsOn slug a, ∃ b ∈ w.actions, ∃ handle,
    d = dependencyOf (b.ref slug) handle

/-- An edge from the trigger, or from an action that exists under the canonical text of its id. -/
def Workflow.IsSource (w : Workflow) (e : ActionEdge) : Prop :=
  e.sourceType = .udf ∧ (∃ id : Uuid, e.sourceId = id.str ∧ (w.find? id).isSome) ∨
    e.sourceType = .trigger ∧ e.sourceId = w.triggerId

/-- What the operations keep of the edges of one action. -/
structure Workflow.EdgesOk (w : Workflow) (edges : List ActionEdge) : Prop where
  source : ∀ e ∈ edges, w.IsSource e
  distinct : (edges.map ActionEdge.sourceId).Nodup
  apart : ∀ e ∈ edges, ∀ e' ∈ edges, ∀ d, w.edgeDependency slug e = some d →
    w.edgeDependency slug e' = some d → e.sourceId = e'.sourceId

/-- The invariant of the graph. -/
structure Workflow.Canonical (w : Workflow) : Prop where
  ids : (w.actions.map Action.id).Nodup
  edges : ∀ a ∈ w.actions, w.EdgesOk slug a.upstreamEdges

/-- An edge is added under the canonical text of its source's id, and no two sources of one
action become the same dependency. -/
def CleanOperation (w : Workflow) : GraphOperation → Prop
  | .addEdge p => p.sourceType = .udf → (∃ id : Uuid, p.sourceId = id.str) ∧
      ∀ a ∈ w.actions, a.id = p.targetId → ∀ e ∈ p.others a.upstreamEdges,
        w.edgeDependency slug e ≠ w.edgeDependency slug p.newEdge
  | .updateNode p => ∀ title, p.title = some title → ∀ a ∈ w.actions, ∀ e ∈ a.upstreamEdges,
      ∀ e' ∈ a.upstreamEdges, e.sourceId = p.actionId.str → e'.sourceId ≠ p.actionId.str →
        w.edgeDependency slug e' ≠ some (dependencyOf (slug title) e.sourceHandle)
  | _ => True

/-- Each operation of a batch is clean where it is applied. -/
def CleanBatch (w : Workflow) : List GraphOperation → Prop
  | [] => True
  | op :: ops => CleanOperation slug w op ∧
      ∀ w', applyOperation cast w op = .ok w' → CleanBatch w' ops

def CleanEvent (w : Workflow) : GraphEvent → Prop
  | .operations _ ops => CleanBatch cast slug w ops
  | .deleteAction _ => True

end

variable {edges : List ActionEdge} {f : Action → Action} {p : EdgePayload} {e : ActionEdge}

section
variable {cast : String → Option Uuid} {slug : String → String} {w w' : Workflow}

theorem Workflow.find?_some {id : Uuid} {a : Action} (h : w.find? id = some a) :
    a ∈ w.actions ∧ a.id = id :=
  ⟨List.mem_of_find?_eq_some h,by simpa using List.find?_some h⟩

theorem Workflow.find?_isSome {a : Action} (h : a ∈ w.actions) : (w.find? a.id).isSome := by
  apply List.find?_isSome.mpr
  exact ⟨a,h,by simp⟩

theorem edgeDependency_of_str {id : Uuid} (h : e.sourceId = id.str) :
    w.edgeDependency slug e =
      (w.find? id).map fun source => dependencyOf (source.ref slug) e.sourceHandle := by
  rw [Workflow.edgeDependency, h, Uuid.parse_str]

theorem triggerId_chars : w.triggerId.toList = "trigger-".toList ++ w.id.chars := by
  rw [Workflow.triggerId, String.toList_append, Uuid.str]
  exact congrArg _ String.toList_ofList

theorem parse_triggerId : Uuid.parse w.triggerId = none := by
  have hmiss : ∀ c : Char, c ∉ "trigger-".toList → (∀ d, hexDigit d ≠ c) → c ≠ '-' →
      c ∉ w.triggerId.toList := by
    intro c hc hd hdash
    rw [triggerId_chars, List.mem_append, not_or]
    exact ⟨hc,notMem_chars hd hdash w.id⟩
  have hu : 'u' ∉ w.triggerId.toList := hmiss 'u' (by decide) (by decide) (by decide)
  have ht : 't' ∈ uuidDigits w.triggerId.toList := by
    have hurn : removeWord "urn:".toList 0 w.triggerId.toList = w.triggerId.toList :=
      removeWord_eq_self hu
    have huuid : removeWord "uuid:".toList 0 w.triggerId.toList = w.triggerId.toList :=
      removeWord_eq_self hu
    rw [uuidDigits, hurn, huuid, stripBraces_eq_self
      (hmiss '{' (by decide) (by decide) (by decide))
      (hmiss '}' (by decide) (by decide) (by decide)), triggerId_chars]
    simp
  exact Uuid.parse_eq_none ht (by decide)

theorem edgeDependency_of_trigger (h : e.sourceId = w.triggerId) :
    w'.edgeDependency slug e = none := by
  rw [Workflow.edgeDependency, h, parse_triggerId]

theorem find?_mapActions (hid : ∀ a, (f a).id = a.id) (id : Uuid) :
    (w.mapActions f).find? id = (w.find? id).map f := by
  rw [Workflow.find?, Workflow.mapActions, List.find?_map]
  simp only [Function.comp_def, hid]
  rfl

theorem edgeDependency_mapActions (hid : ∀ a, (f a).id = a.id) (htitle : ∀ a, (f a).title = a.title)
    (e : ActionEdge) : (w.mapActions f).edgeDependency slug e = w.edgeDependency slug e := by
  unfold Workflow.edgeDependency
  cases Uuid.parse e.sourceId with
  | none => rfl
  | some id =>
    simp only [find?_mapActions hid, Option.map_map, Function.comp_def, Action.ref, htitle]

namespace Workflow

theorem IsSource.type_eq {e' : ActionEdge} (h : w.IsSource e) (h' : w.IsSource e')
    (hs : e.sourceId = e'.sourceId) : e.sourceType = e'.sourceType := by
  have hne : ∀ id : Uuid, id.str ≠ w.triggerId := by
    intro id he
    have hp := Uuid.parse_str id
    rw [he, parse_triggerId] at hp
    cases hp
  rcases h with ⟨ht,id,hid,-⟩ | ⟨ht,hid⟩ <;> rcases h' with ⟨ht',id',hid',-⟩ | ⟨ht',hid'⟩
  · rw [ht, ht']
  · exact absurd (hid.symm.trans (hs.trans hid')) (hne id)
  · exact absurd (hid'.symm.trans (hs.symm.trans hid)) (hne id')
  · rw [ht, ht']

theorem EdgesOk.sublist {edges' : List ActionEdge} (h : w.EdgesOk slug edges)
    (hs : edges'.Sublist edges) : w.EdgesOk slug edges' where
  source := fun e he => h.source e (hs.subset he)
  distinct := (hs.map ActionEdge.sourceId).nodup h.distinct
  apart := fun e he e' he' => h.apart e (hs.subset he) e' (hs.subset he')

theorem EdgesOk.transfer (h : w.EdgesOk slug edges)
    (hsource : ∀ e ∈ edges, w.IsSource e → w'.IsSource e)
    (hdep : ∀ e ∈ edges, w'.edgeDependency slug e = w.edgeDependency slug e) :
    w'.EdgesOk slug edges where
  source := fun e he => hsource e he (h.source e he)
  distinct := h.distinct
  apart := by
    intro e he e' he' d hd hd'
    rw [hdep e he] at hd
    rw [hdep e' he'] at hd'
    exact h.apart e he e' he' d hd hd'

theorem isSource_mapActions (hid : ∀ a, (f a).id = a.id) (h : w.IsSource e) :
    (w.mapActions f).IsSource e := by
  rcases h with ⟨ht,id,hs,hf⟩ | ⟨ht,hs⟩
  · refine .inl ⟨ht,id,hs,?_⟩
    rw [find?_mapActions hid, Option.isSome_map]
    exact hf
  · exact .inr ⟨ht,hs⟩

theorem map_ids (hid : ∀ a, (f a).id = a.id) :
    (w.mapActions f).actions.map Action.id = w.actions.map Action.id := by
  simp only [mapActions, List.map_map, Function.comp_def, hid]

theorem Canonical.map (h : w.Canonical slug) (hid : ∀ a, (f a).id = a.id)
    (htitle : ∀ a, (f a).title = a.title)
    (hedges : ∀ a ∈ w.actions, w.EdgesOk slug (f a).upstreamEdges) :
    (w.mapActions f).Canonical slug where
  ids := by
    rw [map_ids hid]
    exact h.ids
  edges := by
    intro b hb
    obtain ⟨a,ha,rfl⟩ := List.mem_map.mp hb
    apply (hedges a ha).transfer
    · exact fun e _ => isSource_mapActions hid
    · exact fun e _ => edgeDependency_mapActions hid htitle e

theorem Canonical.modify (h : w.Canonical slug) {id : Uuid} (hid : ∀ a, (f a).id = a.id)
    (htitle : ∀ a, (f a).title = a.title)
    (hedges : ∀ a ∈ w.actions, a.id = id → w.EdgesOk slug (f a).upstreamEdges) :
    (w.modify id f).Canonical slug := by
  apply h.map
  · intro a
    split
    · exact hid a
    · rfl
  · intro a
    split
    · exact htitle a
    · rfl
  · intro a ha
    by_cases hi : a.id = id
    · simpa only [hi, if_true] using hedges a ha hi
    · simpa only [hi, if_false] using h.edges a ha

theorem Canonical.same_rows (h : w.Canonical slug) (hid : w'.id = w.id)
    (hrows : w'.actions = w.actions) : w'.Canonical slug := by
  obtain ⟨id,v,px,py,vx,vy,z,rows⟩ := w
  obtain ⟨id',v',px',py',vx',vy',z',rows'⟩ := w'
  obtain rfl : id' = id := hid
  obtain rfl : rows' = rows := hrows
  exact ⟨h.ids,fun a ha => ⟨(h.edges a ha).source,(h.edges a ha).distinct,(h.edges a ha).apart⟩⟩

theorem Canonical.append (h : w.Canonical slug) {a : Action} (hfree : (w.find? a.id).isSome = false)
    (hedges : a.upstreamEdges = []) :
    ({w with actions := w.actions ++ [a]} : Workflow).Canonical slug := by
  have hnew : ∀ b ∈ w.actions, b.id ≠ a.id := by
    intro b hb he
    have := find?_isSome hb
    rw [he, hfree] at this
    cases this
  have hfind : ∀ id, (w.find? id).isSome →
      ({w with actions := w.actions ++ [a]} : Workflow).find? id = w.find? id := by
    intro id hs
    rw [find?, List.find?_append]
    exact Option.or_of_isSome hs
  constructor
  · rw [List.map_append]
    apply List.nodup_append.mpr
    refine ⟨h.ids,List.nodup_singleton _,?_⟩
    intro x hx y hy
    obtain ⟨b,hb,rfl⟩ := List.mem_map.mp hx
    obtain rfl : y = a.id := by simpa using hy
    exact hnew b hb
  · intro b hb
    rcases List.mem_append.mp hb with hb | hb
    · apply (h.edges b hb).transfer
      · rintro e - (⟨ht,id,hs,hf⟩ | ⟨ht,hs⟩)
        · exact .inl ⟨ht,id,hs,by rw [hfind id hf]; exact hf⟩
        · exact .inr ⟨ht,hs⟩
      · intro e he
        rcases (h.edges b hb).source e he with ⟨-,id,hs,hf⟩ | ⟨-,hs⟩
        · rw [edgeDependency_of_str hs, edgeDependency_of_str hs, hfind id hf]
        · exact (edgeDependency_of_trigger hs).trans (edgeDependency_of_trigger hs).symm
    · obtain rfl : b = a := by simpa using hb
      rw [hedges]
      exact ⟨by simp,by simp,by simp⟩

theorem find?_dropAction {id i : Uuid} (hi : i ≠ id) :
    (w.dropAction id).find? i = (w.find? i).map (Action.dropSource id) := by
  rw [← find?_mapActions (f := Action.dropSource id) fun _ => rfl]
  simp only [dropAction, find?, List.find?_filter]
  congr 1
  funext a
  by_cases ha : a.id = i <;> simp [ha, hi]

theorem Canonical.dropAction (h : w.Canonical slug) (id : Uuid) :
    (w.dropAction id).Canonical slug := by
  constructor
  · have hsub : ((w.dropAction id).actions.map Action.id).Sublist (w.actions.map Action.id) := by
      rw [← map_ids (w := w) (f := Action.dropSource id) fun _ => rfl]
      exact List.filter_sublist.map Action.id
    exact hsub.nodup h.ids
  · intro b hb
    obtain ⟨hb,-⟩ := List.mem_filter.mp hb
    obtain ⟨a,ha,rfl⟩ := List.mem_map.mp hb
    have hkept : ∀ e ∈ a.upstreamEdges.filter (fun e => e.sourceId ≠ id.str),
        e ∈ a.upstreamEdges ∧ e.sourceId ≠ id.str := by
      intro e he
      simpa using List.mem_filter.mp he
    -- a kept edge names another action than the dropped one
    have hother : ∀ e ∈ a.upstreamEdges.filter (fun e => e.sourceId ≠ id.str), ∀ i : Uuid,
        e.sourceId = i.str → i ≠ id := by
      intro e he i hs hi
      exact (hkept e he).2 (hs.trans (by rw [hi]))
    apply ((h.edges a ha).sublist List.filter_sublist).transfer
    · rintro e he (⟨ht,i,hs,hf⟩ | ⟨ht,hs⟩)
      · refine .inl ⟨ht,i,hs,?_⟩
        rw [find?_dropAction (hother e he i hs), Option.isSome_map]
        exact hf
      · exact .inr ⟨ht,hs⟩
    · intro e he
      rcases (h.edges a ha).source e (hkept e he).1 with ⟨-,i,hs,-⟩ | ⟨-,hs⟩
      · rw [edgeDependency_of_str hs, edgeDependency_of_str hs,
          find?_dropAction (hother e he i hs), Option.map_map]
        rfl
      · exact (edgeDependency_of_trigger hs).trans (edgeDependency_of_trigger hs).symm

/-- The edges of a target with an edge added to them. -/
theorem EdgesOk.add (h : w.EdgesOk slug edges) (hsource : w.IsSource p.newEdge)
    (hclean : p.sourceType = .udf → ∀ e ∈ p.others edges,
      w.edgeDependency slug e ≠ w.edgeDependency slug p.newEdge) :
    w.EdgesOk slug (p.others edges ++ [p.newEdge]) := by
  have hothers : w.EdgesOk slug (p.others edges) := h.sublist List.filter_sublist
  have hne : ∀ e ∈ p.others edges, e.sourceId ≠ p.sourceId := by
    intro e he hs
    have ht : e.sourceType = p.sourceType := (hothers.source e he).type_eq hsource hs
    have hkept := (List.mem_filter.mp he).2
    simp [hs, ht] at hkept
  -- the new edge is no source of a dependency that is there already
  have hnew : ∀ e ∈ p.others edges, ∀ d, w.edgeDependency slug e = some d →
      w.edgeDependency slug p.newEdge ≠ some d := by
    intro e he d hd hd'
    cases ht : p.sourceType with
    | udf => exact hclean ht e he (hd.trans hd'.symm)
    | trigger =>
      rcases hsource with ⟨hu,-⟩ | ⟨-,hs⟩
      · rw [show p.newEdge.sourceType = p.sourceType from rfl, ht] at hu
        cases hu
      · rw [edgeDependency_of_trigger hs] at hd'
        cases hd'
  refine ⟨?_,?_,?_⟩
  · intro e he
    rcases List.mem_append.mp he with he | he
    · exact hothers.source e he
    · obtain rfl : e = p.newEdge := by simpa using he
      exact hsource
  · rw [List.map_append]
    apply List.nodup_append.mpr
    refine ⟨hothers.distinct,List.nodup_singleton _,?_⟩
    intro x hx y hy
    obtain ⟨e,he,rfl⟩ := List.mem_map.mp hx
    have hy : y = p.newEdge.sourceId := by simpa using hy
    rw [hy]
    exact hne e he
  · intro e he e' he' d hd hd'
    rcases List.mem_append.mp he with he | he <;> rcases List.mem_append.mp he' with he' | he'
    · exact hothers.apart e he e' he' d hd hd'
    · obtain rfl : e' = p.newEdge := by simpa using he'
      exact absurd hd' (hnew e he d hd)
    · obtain rfl : e = p.newEdge := by simpa using he
      exact absurd hd (hnew e' he' d hd')
    · rw [List.mem_singleton.mp he, List.mem_singleton.mp he']

end Workflow

theorem isSource_of_checkSource (hcast : ∀ id : Uuid, cast id.str = some id)
    (h : checkSource cast w p = .ok ())
    (hc : p.sourceType = .udf → ∃ id : Uuid, p.sourceId = id.str) : w.IsSource p.newEdge := by
  unfold checkSource at h
  cases ht : p.sourceType with
  | udf =>
    obtain ⟨id,hid⟩ := hc ht
    simp only [ht, hid, hcast] at h
    split at h
    · rename_i hs
      exact .inl ⟨ht,id,hid,hs⟩
    · cases h
  | trigger =>
    simp only [ht] at h
    split at h
    · rename_i hs
      exact .inr ⟨ht,hs⟩
    · cases h

theorem targetAction_ok {a : Action} (h : targetAction w p = .ok a) :
    a ∈ w.actions ∧ a.id = p.targetId := by
  unfold targetAction at h
  cases hf : w.find? p.targetId with
  | none => simp [hf] at h
  | some b =>
    obtain rfl : b = a := by simpa [hf] using h
    exact Workflow.find?_some hf

theorem addNode_keeps (h : w.Canonical slug) {p : AddNodePayload} {uuid4 : Uuid}
    (hs : addNode w p uuid4 = .ok w') : w'.Canonical slug := by
  unfold addNode at hs
  split at hs
  · cases hs
  · rename_i hfree
    cases hs
    apply h.append
    · simpa using hfree
    · rfl

theorem addEdge_keeps (hcast : ∀ id : Uuid, cast id.str = some id) (h : w.Canonical slug)
    (hc : CleanOperation slug w (.addEdge p)) (hs : addEdge cast w p = .ok w') :
    w'.Canonical slug := by
  simp only [addEdge, bind_eq_ok] at hs
  obtain ⟨_,hsource,target,htarget,hs⟩ := hs
  cases hs
  obtain ⟨hmem,hid⟩ := targetAction_ok htarget
  have hnew := isSource_of_checkSource hcast hsource fun ht => (hc ht).1
  apply h.modify
  · exact fun _ => rfl
  · exact fun _ => rfl
  · intro _ _ _
    exact (h.edges target hmem).add hnew fun ht => (hc ht).2 target hmem hid

theorem deleteEdge_keeps (h : w.Canonical slug) (hs : deleteEdge w p = .ok w') :
    w'.Canonical slug := by
  simp only [deleteEdge, bind_eq_ok] at hs
  obtain ⟨target,htarget,hs⟩ := hs
  cases hs
  apply h.modify
  · exact fun _ => rfl
  · exact fun _ => rfl
  · intro _ _ _
    exact (h.edges target (targetAction_ok htarget).1).sublist List.filter_sublist

theorem moveNodes_keeps (h : w.Canonical slug) {p : MoveNodesPayload}
    (hs : moveNodes cast w p = .ok w') : w'.Canonical slug := by
  apply foldlM_invariant ?_ h hs
  intro v pos v' hv hm
  unfold moveNode at hm
  split at hm
  · split at hm
    · cases hm
    · cases hm
      exact hv.modify (fun _ => rfl) (fun _ => rfl) fun a ha _ => hv.edges a ha
  · cases hm
    exact hv

/-- `_update_node` on one row. -/
def UpdateNodePayload.update (p : UpdateNodePayload) (a : Action) : Action :=
  {a with
    title := p.title.getD a.title
    description := p.description.getD a.description
    inputs := p.inputs.getD a.inputs
    controlFlow := p.controlFlow.getD a.controlFlow}

theorem edgeDependency_update_other {p : UpdateNodePayload} (h : w.IsSource e)
    (hne : e.sourceId ≠ p.actionId.str) :
    (w.modify p.actionId p.update).edgeDependency slug e = w.edgeDependency slug e := by
  have hid : ∀ a : Action, (if a.id = p.actionId then p.update a else a).id = a.id := by
    intro a
    split <;> rfl
  rcases h with ⟨-,id,hs,-⟩ | ⟨-,hs⟩
  · have hi : id ≠ p.actionId := fun hi => hne (by rw [hs, hi])
    rw [edgeDependency_of_str hs, edgeDependency_of_str hs, Workflow.modify, find?_mapActions hid,
      Option.map_map]
    apply Option.map_congr
    intro a ha
    have ha : a.id = id := (Workflow.find?_some (Option.mem_def.mp ha)).2
    rw [Function.comp_apply, ha, if_neg hi]
  · exact (edgeDependency_of_trigger hs).trans (edgeDependency_of_trigger hs).symm

theorem edgeDependency_update_self {p : UpdateNodePayload} {title : String}
    (ht : p.title = some title) (hs : e.sourceId = p.actionId.str) {d : String}
    (hd : (w.modify p.actionId p.update).edgeDependency slug e = some d) :
    dependencyOf (slug title) e.sourceHandle = d := by
  have hid : ∀ a : Action, (if a.id = p.actionId then p.update a else a).id = a.id := by
    intro a
    split <;> rfl
  rw [edgeDependency_of_str hs, Workflow.modify, find?_mapActions hid, Option.map_map,
    Option.map_eq_some_iff] at hd
  obtain ⟨a,ha,hd⟩ := hd
  have ha : a.id = p.actionId := (Workflow.find?_some ha).2
  simpa only [Function.comp_apply, ha, if_true, Action.ref, UpdateNodePayload.update, ht,
    Option.getD_some] using hd

theorem updateNode_keeps (h : w.Canonical slug) {p : UpdateNodePayload}
    (hc : CleanOperation slug w (.updateNode p)) (hs : updateNode w p = .ok w') :
    w'.Canonical slug := by
  obtain rfl : w.modify p.actionId p.update = w' := Except.ok.inj hs
  have hid : ∀ a : Action, (if a.id = p.actionId then p.update a else a).id = a.id := by
    intro a
    split <;> rfl
  cases ht : p.title with
  | none =>
    apply h.modify
    · exact fun _ => rfl
    · intro a
      rw [UpdateNodePayload.update, ht, Option.getD_none]
    · exact fun a ha _ => h.edges a ha
  | some title =>
    constructor
    · rw [Workflow.modify, Workflow.map_ids hid]
      exact h.ids
    · intro b hb
      obtain ⟨a,ha,rfl⟩ := List.mem_map.mp hb
      have hedges : (if a.id = p.actionId then p.update a else a).upstreamEdges =
          a.upstreamEdges := by
        split <;> rfl
      have hok := h.edges a ha
      rw [hedges]
      refine ⟨fun e he => Workflow.isSource_mapActions hid (hok.source e he),hok.distinct,?_⟩
      -- a renamed source against another one is what the condition excludes
      have hclash : ∀ e ∈ a.upstreamEdges, ∀ e' ∈ a.upstreamEdges, ∀ d,
          e.sourceId = p.actionId.str → e'.sourceId ≠ p.actionId.str →
          (w.modify p.actionId p.update).edgeDependency slug e = some d →
          (w.modify p.actionId p.update).edgeDependency slug e' ≠ some d := by
        intro e he e' he' d hse hse' hd hd'
        rw [edgeDependency_update_other (hok.source e' he') hse'] at hd'
        apply hc title ht a ha e he e' he' hse hse'
        rw [hd', edgeDependency_update_self ht hse hd]
      intro e he e' he' d hd hd'
      by_cases hse : e.sourceId = p.actionId.str <;> by_cases hse' : e'.sourceId = p.actionId.str
      · rw [hse, hse']
      · exact absurd hd' (hclash e he e' he' d hse hse' hd)
      · exact absurd hd (hclash e' he' e he d hse' hse hd')
      · rw [edgeDependency_update_other (hok.source e he) hse] at hd
        rw [edgeDependency_update_other (hok.source e' he') hse'] at hd'
        exact hok.apart e he e' he' d hd hd'

section
variable (hcast : ∀ id : Uuid, cast id.str = some id) (h : w.Canonical slug)
include hcast h

theorem applyOperation_keeps {op : GraphOperation} (hc : CleanOperation slug w op) (hs : applyOperation cast w op = .ok w') :
    w'.Canonical slug := by
  cases op with
  | addNode p uuid4 => exact addNode_keeps h hs
  | updateNode p => exact updateNode_keeps h hc hs
  | deleteNode p =>
    obtain rfl : w.dropAction p.actionId = w' := Except.ok.inj hs
    exact h.dropAction p.actionId
  | addEdge p => exact addEdge_keeps hcast h hc hs
  | deleteEdge p => exact deleteEdge_keeps h hs
  | moveNodes p => exact moveNodes_keeps h hs
  | updateTriggerPosition p =>
    cases hs
    exact h.same_rows rfl rfl
  | updateViewport p =>
    cases hs
    exact h.same_rows rfl rfl
  | malformed type => cases hs

theorem applyAll_keeps {ops : List GraphOperation} (hc : CleanBatch cast slug w ops) (hs : applyAll cast w ops = .ok w') :
    w'.Canonical slug := by
  induction ops generalizing w with
  | nil =>
    cases hs
    exact h
  | cons op ops ih =>
    rw [applyAll, List.foldlM_cons, bind_eq_ok] at hs
    obtain ⟨v,hv,hs⟩ := hs
    exact ih (applyOperation_keeps hcast h hc.1 hv) (hc.2 v hv) hs

theorem graphStep_keeps {event : GraphEvent} (hc : CleanEvent cast slug w event) (hs : graphStep cast w event = some w') :
    w'.Canonical slug := by
  cases event with
  | operations baseVersion ops =>
    have hs : applyOperations cast w baseVersion ops = .ok w' := toOption_eq_some.mp hs
    unfold applyOperations at hs
    split at hs
    · cases hs
    · obtain ⟨v,hv,hs⟩ := bind_eq_ok.mp hs
      obtain rfl : v.bumpVersion _ = w' := Except.ok.inj hs
      apply (applyAll_keeps hcast h hc hv).same_rows
      · unfold Workflow.bumpVersion
        split <;> rfl
      · unfold Workflow.bumpVersion
        split <;> rfl
  | deleteAction action =>
    rw [graphStep] at hs
    split at hs
    · cases hs
      exact h.dropAction action.id
    · cases hs

end

theorem Workflow.EdgesOk.eq_of_sourceId (h : w.EdgesOk slug edges) {e' : ActionEdge}
    (he : e ∈ edges) (he' : e' ∈ edges) (hs : e.sourceId = e'.sourceId) : e = e' :=
  List.inj_on_of_nodup_map h.distinct he he' hs

theorem Workflow.EdgesOk.live (h : w.EdgesOk slug edges) (he : e ∈ edges) (ht : e.sourceType = .udf) :
    ∃ b ∈ w.actions, e.sourceId = b.id.str ∧ Uuid.parse e.sourceId = some b.id := by
  rcases h.source e he with ⟨-,id,hs,hf⟩ | ⟨ht',-⟩
  · obtain ⟨b,hb⟩ := Option.isSome_iff_exists.mp hf
    obtain ⟨hmem,hid⟩ := find?_some hb
    refine ⟨b,hmem,?_,?_⟩
    · rw [hid, hs]
    · rw [hs, Uuid.parse_str, hid]
  · rw [ht] at ht'
    cases ht'

theorem Workflow.EdgesOk.dependencies_nodup (h : w.EdgesOk slug edges) :
    (edges.filterMap (w.edgeDependency slug)).Nodup := by
  apply List.pairwise_filterMap.mpr
  have hedges : edges.Nodup := List.Nodup.of_map _ h.distinct
  apply List.Pairwise.imp_of_mem ?_ hedges
  intro e e' he he' hne d hd d' hd' heq
  rw [← heq] at hd'
  exact hne (h.eq_of_sourceId he he' (h.apart e he e' he' d hd hd'))

theorem Workflow.Canonical.edgesSound (h : w.Canonical slug) : w.EdgesSound slug where
  live := by
    intro a ha e he ht
    obtain ⟨b,hb,-,hp⟩ := (h.edges a ha).live he ht
    exact ⟨b,hb,hp⟩
  single := by
    intro a ha
    have hok := h.edges a ha
    apply List.Nodup.map_on ?_ (List.Nodup.of_map _ hok.distinct)
    intro e he e' he' hp
    apply hok.eq_of_sourceId he he'
    rcases hok.source e he with ⟨-,id,hs,-⟩ | ⟨-,hs⟩ <;>
      rcases hok.source e' he' with ⟨-,id',hs',-⟩ | ⟨-,hs'⟩ <;>
      rw [hs, hs'] at hp ⊢
    · rw [Uuid.parse_str, Uuid.parse_str, Option.some.injEq] at hp
      rw [hp]
    · rw [Uuid.parse_str, parse_triggerId] at hp
      cases hp
    · rw [Uuid.parse_str, parse_triggerId] at hp
      cases hp
  dependsOn_nodup := by
    intro a ha
    exact (List.mergeSort_perm _ _).nodup_iff.mpr (h.edges a ha).dependencies_nodup
  dependsOn_live := by
    intro a _ d hd
    have hd : d ∈ a.upstreamEdges.filterMap (w.edgeDependency slug) :=
      (List.mergeSort_perm _ _).mem_iff.mp hd
    obtain ⟨e,-,hd⟩ := List.mem_filterMap.mp hd
    unfold edgeDependency at hd
    split at hd
    · cases hd
    · obtain ⟨b,hb,rfl⟩ := Option.map_eq_some_iff.mp hd
      exact ⟨b,(find?_some hb).1,e.sourceHandle,rfl⟩

/-- In every run whose operations are clean, the edges stay between existing actions. -/
theorem edges_stay_sound (hcast : ∀ id : Uuid, cast id.str = some id) (h0 : w.Canonical slug)
    (hrun : Runs.Reaches (graphStep cast) (CleanEvent cast slug) w w') : w'.EdgesSound slug := by
  apply Workflow.Canonical.edgesSound
  apply hrun.invariant h0
  exact fun _ _ _ _ h hc hs => graphStep_keeps hcast h hc hs

end

/-- A workflow without actions. -/
def Workflow.blank (id : Uuid) : Workflow := ⟨id,1,0,0,0,0,1,[]⟩

theorem canonical_blank (slug : String → String) (id : Uuid) : (Workflow.blank id).Canonical slug :=
  ⟨List.nodup_nil,by simp [Workflow.blank]⟩

def sampleNode (title : String) (d : Fin 16) : GraphOperation :=
  .addNode ⟨"core.noop",title,none,none,none,0,0⟩ (Uuid.ofDigit d)

def sampleAction (title : String) (d : Fin 16) : Action :=
  ⟨Uuid.ofDigit d,"core.noop",title,"","",.dict [],0,0,[]⟩

def sampleGraph : Workflow := ⟨Uuid.ofDigit 0,2,0,0,0,0,1,[sampleAction "a" 10,sampleAction "b" 11]⟩

/-- An edge between them whose source is named by `text`. -/
def sampleEdge (text : String) : GraphEvent :=
  .operations 2 [.addEdge ⟨text,.udf,.ofDigit 11,none⟩]

def Workflow.edgeTable (w : Workflow) : List (Uuid × List ActionEdge) :=
  w.actions.map fun a => (a.id,a.upstreamEdges)

theorem graphStep_sampleNodes : graphStep Uuid.parse (Workflow.blank (Uuid.ofDigit 0))
    (.operations 1 [sampleNode "a" 10,sampleNode "b" 11]) = some sampleGraph := rfl

theorem edges_stay_sound_sample : ∃ w, Runs.Reaches (graphStep Uuid.parse)
    (CleanEvent Uuid.parse (fun title => title)) (Workflow.blank (Uuid.ofDigit 0)) w ∧
    w.edgeTable = [(Uuid.ofDigit 10,[]),
      (Uuid.ofDigit 11,[⟨(Uuid.ofDigit 10).str,.udf,some .success⟩])] ∧
    w.EdgesSound (fun title => title) := by
  have hedge : (graphStep Uuid.parse sampleGraph (sampleEdge (Uuid.ofDigit 10).str)).map
      Workflow.edgeTable = some [(Uuid.ofDigit 10,[]),
        (Uuid.ofDigit 11,[⟨(Uuid.ofDigit 10).str,.udf,some .success⟩])] := by
    decide
  obtain ⟨w,hw,htable⟩ := Option.map_eq_some_iff.mp hedge
  have hnodes : CleanEvent Uuid.parse (fun title => title) (Workflow.blank (Uuid.ofDigit 0))
      (.operations 1 [sampleNode "a" 10,sampleNode "b" 11]) :=
    ⟨trivial,fun _ _ => ⟨trivial,fun _ _ => trivial⟩⟩
  have hclean : CleanEvent Uuid.parse (fun title => title) sampleGraph
      (sampleEdge (Uuid.ofDigit 10).str) := by
    refine ⟨fun _ => ⟨⟨Uuid.ofDigit 10,rfl⟩,?_⟩,fun _ _ => trivial⟩
    intro a ha _ e he
    have hnone : a.upstreamEdges = [] := by
      simp only [sampleGraph, List.mem_cons, List.not_mem_nil, or_false] at ha
      rcases ha with rfl | rfl <;> rfl
    rw [hnone] at he
    cases he
  have hrun := (Runs.Reaches.refl.step hnodes graphStep_sampleNodes).step hclean hw
  exact ⟨w,hrun,htable,edges_stay_sound Uuid.parse_str (canonical_blank _ _) hrun⟩

/-- An edge added under the upper case text of its source's id outlives the source. -/
theorem edge_outlives_source : (∀ id : Uuid, Uuid.parse id.str = some id) ∧
    ∃ w, Runs.Reachable (graphStep Uuid.parse) (Workflow.blank (Uuid.ofDigit 0)) w ∧
      ¬ w.EdgesSound (fun title => title) := by
  have hrun : (Runs.follow (graphStep Uuid.parse) (Workflow.blank (Uuid.ofDigit 0))
      [.operations 1 [sampleNode "a" 10,sampleNode "b" 11],
        sampleEdge "AAAAAAAA-AAAA-AAAA-AAAA-AAAAAAAAAAAA",
        .operations 3 [.deleteNode ⟨Uuid.ofDigit 10⟩]]).map Workflow.edgeTable =
      some [(Uuid.ofDigit 11,[⟨"AAAAAAAA-AAAA-AAAA-AAAA-AAAAAAAAAAAA",.udf,some .success⟩])] := by
    decide
  obtain ⟨w,hw,htable⟩ := Runs.reachable_of_observed hrun
  refine ⟨Uuid.parse_str,w,hw,?_⟩
  intro h
  obtain ⟨a,hactions,ha⟩ := List.map_eq_singleton_iff.mp htable
  obtain ⟨hid,hedges⟩ := Prod.mk.inj ha
  have hmem : a ∈ w.actions := by simp [hactions]
  have he : ⟨"AAAAAAAA-AAAA-AAAA-AAAA-AAAAAAAAAAAA",.udf,some .success⟩ ∈ a.upstreamEdges := by
    rw [hedges]
    exact List.mem_singleton_self _
  obtain ⟨b,hb,hp⟩ := h.live a hmem _ he rfl
  obtain rfl : b = a := by simpa [hactions] using hb
  rw [hid] at hp
  exact absurd hp (by decide)

end Allama
