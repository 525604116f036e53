import Allama.SplitLists
import Allama.WorkflowRecords

/-! What is left of a DSL in the workflow made from it. -/
namespace Allama
open Checked
section
variable {v w : Value} {s : String}

theorem mem_itemStrings {vs : List Value} : s ∈ itemStrings vs ↔ ∃ v ∈ vs, s ∈ v.strings := by
  induction vs with
  | nil => simp [itemStrings]
  | cons v vs ih => simp [itemStrings, ih]

theorem mem_entryStrings {es : List (String × Value)} :
    s ∈ entryStrings es ↔ ∃ e ∈ es, s = e.1 ∨ s ∈ e.2.strings := by
  induction es with
  | nil => simp [entryStrings]
  | cons e es ih => simp [entryStrings, ih, or_assoc]

mutual

theorem mem_strings_sortKeys : (v : Value) → (s ∈ v.sortKeys.strings ↔ s ∈ v.strings)
  | .none => Iff.rfl
  | .bool _ => Iff.rfl
  | .int _ => Iff.rfl
  | .float _ => Iff.rfl
  | .str _ => Iff.rfl
  | .list vs => mem_itemStrings_sortItems vs
  | .dict es => by
    rw [Value.sortKeys, Value.strings, Value.strings, ← mem_entryStrings_sortEntries es, mem_entryStrings,
      mem_entryStrings]
    simp only [List.mem_mergeSort]

theorem mem_itemStrings_sortItems : (vs : List Value) → (s ∈ itemStrings (sortItems vs) ↔ s ∈ itemStrings vs)
  | [] => Iff.rfl
  | v :: vs => by
    rw [sortItems, itemStrings, itemStrings, List.mem_append, List.mem_append, mem_strings_sortKeys v,
      mem_itemStrings_sortItems vs]

theorem mem_entryStrings_sortEntries :
    (es : List (String × Value)) → (s ∈ entryStrings (sortEntries es) ↔ s ∈ entryStrings es)
  | [] => Iff.rfl
  | (k,v) :: es => by
    rw [sortEntries, entryStrings, entryStrings, List.mem_append, List.mem_append, List.mem_cons, List.mem_cons,
      mem_strings_sortKeys v, mem_entryStrings_sortEntries es]

end

theorem Value.Same.strings (h : v.Same w) : s ∈ v.strings ↔ s ∈ w.strings := by
  rw [← mem_strings_sortKeys v, ← mem_strings_sortKeys w, h]

theorem Value.Same.dict {es : List (String × Value)} (h : v.Same (.dict es)) : ∃ es', v = .dict es' := by
  unfold Value.Same at h
  cases v with
  | dict es' => exact ⟨es',rfl⟩
  | _ =>
    simp only [Value.sortKeys] at h
    cases h

end

/-! The slug of the title of a ref. -/

def slugChars : Text := "abcdefghijklmnopqrstuvwxyz0123456789_".toList

theorem mem_slugChars {r : String} (h : isSlug r) {c : Char} (hc : c ∈ r.toList) : c ∈ slugChars := by
  have hcode : ∀ n < 128, (((decide ('a' ≤ Char.ofNat n) && decide (Char.ofNat n ≤ 'z')) ||
      (decide ('0' ≤ Char.ofNat n) && decide (Char.ofNat n ≤ '9')) || Char.ofNat n == '_') = true →
      Char.ofNat n ∈ slugChars) := by decide
  unfold isSlug at h
  rw [Bool.and_eq_true, List.all_eq_true] at h
  have hin := h.2 c hc
  have hlt : c.toNat < 128 := by
    simp only [Bool.or_eq_true, Bool.and_eq_true, decide_eq_true_eq, beq_iff_eq] at hin
    rcases hin with (⟨_,hle⟩ | ⟨_,hle⟩) | rfl
    · exact lt_of_le_of_lt (show c.toNat ≤ 'z'.toNat from hle) (by decide)
    · exact lt_of_le_of_lt (show c.toNat ≤ '9'.toNat from hle) (by decide)
    · decide
  have hmem := hcode c.toNat hlt
  rw [Char.ofNat_toNat] at hmem
  exact hmem hin

theorem of_slugChars {p : Char → Bool} (h : slugChars.all p = true) {c : Char} (hc : c ∈ slugChars) : p c = true :=
  List.all_eq_true.mp h c hc

theorem isSlug_ne_nil {r : String} (h : isSlug r) : r.toList ≠ [] := by
  unfold isSlug at h
  rw [Bool.and_eq_true] at h
  intro hnil
  rw [hnil] at h
  exact absurd h.1 (by decide)

theorem edgeComponentsFromDep_slug {r : String} (h : isSlug r) : edgeComponentsFromDep r = some (r,.success) := by
  have hspan : r.toList.span (fun c => decide (c ≠ '.')) = (r.toList,[]) := by
    rw [List.span_eq_takeWhile_dropWhile]
    have hall : ∀ c ∈ r.toList, decide (c ≠ '.') = true := by
      intro c hc
      have hdot : slugChars.all (fun c => decide (c ≠ '.')) = true := by decide
      exact of_slugChars hdot (mem_slugChars h hc)
    rw [List.takeWhile_eq_self_iff.mpr hall, List.dropWhile_eq_nil_iff.mpr hall]
  rw [edgeComponentsFromDep, hspan]
  simp only [String.ofList_toList]

namespace Management

def refParts (r : String) : List Text := r.toList.splitOn '_'

def words (t : Text) : List Text := (t.splitOn ' ').filter (· ≠ [])

/-- `slugify` joins the words of a text of ASCII letters, digits and spaces, in lower case. -/
def Packages.Slugifies (P : Packages) : Prop :=
  ∀ t : Text, (∀ c ∈ t, c.isAlphanum ∨ c = ' ') →
    P.slugify (String.ofList t) = String.ofList (['_'].intercalate (words (t.map Char.toLower)))

theorem title_chars {cs : Text} (h : ∀ c ∈ cs, c ∈ slugChars) :
    ∀ c ∈ (capitalize cs).map spaced, c.isAlphanum ∨ c = ' ' := by
  have hfirst : slugChars.all (fun c => (spaced c.toUpper).isAlphanum || spaced c.toUpper = ' ') := by decide
  have hrest : slugChars.all (fun c => (spaced c.toLower).isAlphanum || spaced c.toLower = ' ') := by decide
  cases cs with
  | nil => simp [capitalize]
  | cons c cs =>
    rw [List.forall_mem_cons] at h
    rw [capitalize, List.map_cons, List.forall_mem_cons]
    refine ⟨by simpa using of_slugChars hfirst h.1,?_⟩
    intro d hd
    rw [List.map_map, List.mem_map] at hd
    obtain ⟨c,hc,rfl⟩ := hd
    simpa using of_slugChars hrest (h.2 c hc)

theorem title_lower {cs : Text} (h : ∀ c ∈ cs, c ∈ slugChars) :
    ((capitalize cs).map spaced).map Char.toLower = cs.map spaced := by
  have hfirst : slugChars.all (fun c => (spaced c.toUpper).toLower = spaced c) := by decide
  have hrest : slugChars.all (fun c => (spaced c.toLower).toLower = spaced c) := by decide
  cases cs with
  | nil => rfl
  | cons c cs =>
    rw [List.forall_mem_cons] at h
    have hc : (spaced c.toUpper).toLower = spaced c := by simpa using of_slugChars hfirst h.1
    rw [capitalize, List.map_cons, List.map_cons, List.map_cons, hc, List.map_map, List.map_map]
    congr 1
    exact List.map_congr_left fun c hc => by simpa using of_slugChars hrest (h.2 c hc)

theorem splitOn_spaced {cs : Text} (h : ' ' ∉ cs) : (cs.map spaced).splitOn ' ' = cs.splitOn '_' := by
  induction cs with
  | nil => rfl
  | cons c cs ih =>
    rw [List.mem_cons, not_or] at h
    rw [List.map_cons, List.splitOn_cons_eq_if_modifyHead, List.splitOn_cons_eq_if_modifyHead, ih h.2]
    by_cases hc : c = '_'
    · subst hc
      rfl
    · have hsp : spaced c = c := if_neg hc
      have hne : (c == ' ') = false := by simpa using fun he => h.1 he.symm
      rw [hsp, hne]
      simp [hc]

section
variable {P : Packages} (hslug : P.Slugifies) {r : String} (hr : isSlug r)

def fullParts (r : String) : List Text := (refParts r).filter (· ≠ [])

theorem splitOn_fullParts (h : fullParts r ≠ []) : (['_'].intercalate (fullParts r)).splitOn '_' = fullParts r :=
  List.splitOn_intercalate '_' (fun _ hp => SplitLists.notMem_of_mem_splitOn (List.mem_of_mem_filter hp)) h

theorem nil_not_mem_fullParts : [] ∉ fullParts r := by
  simp [fullParts]

include hslug hr

theorem slugify_titleOf : P.slugify (titleOf r) = String.ofList (['_'].intercalate (fullParts r)) := by
  have hchars : ∀ c ∈ r.toList, c ∈ slugChars := fun c hc => mem_slugChars hr hc
  have hspace : ' ' ∉ r.toList := fun hm => absurd (hchars _ hm) (by decide)
  rw [titleOf, hslug _ (title_chars hchars), title_lower hchars, words, splitOn_spaced hspace, fullParts, refParts]

theorem refParts_slugify (hs : P.slugify (titleOf r) ≠ "") : [] ∉ refParts (P.slugify (titleOf r)) := by
  rw [slugify_titleOf hslug hr] at hs ⊢
  have hne : fullParts r ≠ [] := by
    intro hnil
    rw [hnil] at hs
    exact hs rfl
  rw [refParts, String.toList_ofList, splitOn_fullParts hne]
  exact nil_not_mem_fullParts

theorem slugify_titleOf_eq : P.slugify (titleOf r) = r ↔ [] ∉ refParts r := by
  constructor
  · intro he
    have hne : r ≠ "" := fun h => isSlug_ne_nil hr (by rw [h]; rfl)
    have hparts := refParts_slugify hslug hr (by rw [he]; exact hne)
    rwa [he] at hparts
  · intro hparts
    have hall : fullParts r = refParts r := by
      apply List.filter_eq_self.mpr
      intro p hp
      have hpne : p ≠ [] := fun h => hparts (h ▸ hp)
      simpa using hpne
    rw [slugify_titleOf hslug hr, hall, refParts, List.intercalate_splitOn, String.ofList_toList]

end

/-! The control flow of an action, dumped into its row and read again. -/

theorem readText_dumpText (text : Option String) : readText (some (dumpText text)) = some text := by
  cases text <;> rfl

theorem readForEach_dumpForEach (f : Option ForEach) : readForEach (some (dumpForEach f)) = some f := by
  cases f with
  | none => rfl
  | some f =>
    cases f with
    | one expression => rfl
    | many expressions =>
      have hread : (expressions.map Value.str).mapM readStr = some expressions := by
        induction expressions with
        | nil => rfl
        | cons e es ih =>
          rw [List.map_cons, List.mapM_cons, ih]
          rfl
      rw [dumpForEach, readForEach, hread]
      rfl

theorem readJoinStrategy_value (j : JoinStrategy) : readJoinStrategy (some (.str j.value)) = some j := by
  cases j <;> rfl

theorem readRetryPolicy_dump {p : ActionRetryPolicy}
    (h : p.retryUntil.all fun s => isStandaloneTemplate s.toList) :
    readRetryPolicy (some p.modelDump) = some p := by
  have hattempts : readInt 1 (some (.int p.maxAttempts)) = some p.maxAttempts := rfl
  have htimeout : readInt 300 (some (.int p.timeout)) = some p.timeout := rfl
  rw [ActionRetryPolicy.modelDump, readRetryPolicy]
  simp [List.lookup_cons, hattempts, htimeout, readText_dumpText, h]

theorem readControlFlow_dump {c : ActionControlFlow}
    (h : c.retryPolicy.retryUntil.all fun s => isStandaloneTemplate s.toList) :
    readControlFlow c.modelDump = some c := by
  have hdelay : readFloat 0 (some (.float c.startDelay)) = some c.startDelay := rfl
  rw [ActionControlFlow.modelDump, readControlFlow]
  simp [List.lookup_cons, readText_dumpText, readForEach_dumpForEach, readJoinStrategy_value, readRetryPolicy_dump h,
    hdelay]

theorem readConfig_dump (c : DSLConfig) : readConfig (dumpConfig c) = some c := rfl

theorem modelValidate_dump {P : Packages} {c : ActionControlFlow}
    (h : c.retryPolicy.retryUntil.all fun s => isStandaloneTemplate s.toList) (hv : c.isValid P) :
    ActionControlFlow.modelValidate P c.modelDump = .ok c := by
  rw [ActionControlFlow.modelValidate, readControlFlow_dump h]
  simp only [orRaise, bind, Except.bind, ActionControlFlow.new, hv, if_true]

/-! The rows that are made of the statements. -/

section
variable (P : Packages) (uuid4 : String → Uuid) (workflowId : Uuid) (dsl : DSLInput)

def DSLInput.refs (dsl : DSLInput) : List String := dsl.actions.map ActionStatement.ref

/-- The row that `newAction` makes of a statement within the bounds. -/
def newRow (stmt : ActionStatement) : ActionRow where
  id := uuid4 stmt.ref
  type := stmt.action
  inputs := P.dump (.dict stmt.args)
  title := titleOf stmt.ref
  description := stmt.description
  controlFlow := stmt.controlFlow.modelDump
  positionX := 0
  positionY := 0
  upstreamEdges := []

def refToAction : List (String × ActionRow) := dsl.actions.map fun stmt => (stmt.ref,newRow P uuid4 stmt)

def rowOf (stmt : ActionStatement) : ActionRow :=
  {newRow P uuid4 stmt with upstreamEdges := upstreamEdgesOf workflowId (refToAction P uuid4 dsl) stmt}

variable {P uuid4 workflowId dsl}

theorem newAction_eq_ok {stmt : ActionStatement} {row : ActionRow} :
    newAction P uuid4 stmt = .ok row ↔ stmt.controlFlow.isValid P ∧ row = newRow P uuid4 stmt := by
  unfold newAction ActionControlFlow.new
  by_cases hv : stmt.controlFlow.isValid P
  · simp only [hv, if_true, orRaise, bind, Except.bind, Except.ok.injEq, true_and]
    exact eq_comm
  · simp [hv, orRaise, bind, Except.bind]

theorem createActionsFromDsl_eq_ok {rows : List ActionRow} :
    createActionsFromDsl P uuid4 workflowId dsl = .ok rows ↔
      (∀ stmt ∈ dsl.actions, stmt.controlFlow.isValid P) ∧
        rows = dsl.actions.map (rowOf P uuid4 workflowId dsl) := by
  have hzip : (dsl.actions.map ActionStatement.ref).zip (dsl.actions.map (newRow P uuid4)) =
      refToAction P uuid4 dsl := List.zip_map'
  have hrows : ∀ edges : ActionStatement → List ActionEdge,
      List.zipWith (fun stmt action => {action with upstreamEdges := edges stmt}) dsl.actions
        (dsl.actions.map (newRow P uuid4)) =
      dsl.actions.map fun stmt => {newRow P uuid4 stmt with upstreamEdges := edges stmt} := by
    intro edges
    rw [List.zipWith_map_right, List.zipWith_self]
  unfold createActionsFromDsl
  rw [bind_eq_ok]
  constructor
  · rintro ⟨actions,hmap,hok⟩
    obtain ⟨hv,rfl⟩ := (mapM_eq_ok_map fun _ _ => newAction_eq_ok).mp hmap
    refine ⟨hv,?_⟩
    rw [hzip] at hok
    exact (Except.ok.inj hok).symm.trans (hrows _)
  · rintro ⟨hv,rfl⟩
    refine ⟨dsl.actions.map (newRow P uuid4),(mapM_eq_ok_map fun _ _ => newAction_eq_ok).mpr ⟨hv,rfl⟩,?_⟩
    rw [hzip]
    exact congrArg Except.ok (hrows _)

theorem lookup_refToAction (r : String) :
    ((refToAction P uuid4 dsl).lookup r).map (fun row => row.id) =
      if r ∈ dsl.refs then some (uuid4 r) else none := by
  unfold refToAction DSLInput.refs
  induction dsl.actions with
  | nil => rfl
  | cons stmt stmts ih =>
    rw [List.map_cons, List.lookup_cons]
    by_cases hr : r = stmt.ref
    · subst hr
      simp [newRow]
    · have hne : (r == stmt.ref) = false := by simpa using hr
      rw [hne]
      simp only [ih, List.map_cons, List.mem_cons, hr, false_or]

theorem upstreamEdges_rowOf (stmt : ActionStatement) :
    (rowOf P uuid4 workflowId dsl stmt).upstreamEdges =
      if stmt.dependsOn ≠ [] then
        stmt.dependsOn.filterMap fun d => if d ∈ dsl.refs then some ⟨(uuid4 d).str,.udf,some .success⟩ else none
      else [⟨"trigger-" ++ workflowId.str,.trigger,none⟩] := by
  have hedge : ∀ d, ((refToAction P uuid4 dsl).lookup d).map
      (fun depAction => (⟨depAction.id.str,.udf,some .success⟩ : ActionEdge)) =
        if d ∈ dsl.refs then some ⟨(uuid4 d).str,.udf,some .success⟩ else none := by
    intro d
    have hid : ((refToAction P uuid4 dsl).lookup d).map (fun row => row.id) = _ := lookup_refToAction d
    have hcomp := congrArg (Option.map fun id : Uuid => (⟨id.str,.udf,some .success⟩ : ActionEdge)) hid
    rw [Option.map_map] at hcomp
    rw [show (fun depAction : ActionRow => (⟨depAction.id.str,.udf,some .success⟩ : ActionEdge)) =
      (fun id : Uuid => ⟨id.str,.udf,some .success⟩) ∘ fun row : ActionRow => row.id from rfl, hcomp]
    split <;> rfl
  unfold rowOf upstreamEdgesOf
  simp only [hedge]

end

/-! The statements that are built from the rows. -/

section
variable {P : Packages} {uuid4 : String → Uuid} {dsl : DSLInput} {w : WorkflowRow}
  (hids : Set.InjOn uuid4 {r | r ∈ dsl.refs}) (hrows : w.actions.Perm (dsl.actions.map (rowOf P uuid4 w.id dsl)))
include hids hrows

theorem find?_uuid4 {r : String} (hr : r ∈ dsl.refs) :
    ∃ row, w.graph.find? (uuid4 r) = some row ∧ row.title = titleOf r := by
  have hmem : ∀ row ∈ w.graph.actions, ∃ stmt ∈ dsl.actions, row = (rowOf P uuid4 w.id dsl stmt).toAction := by
    intro row hrow
    obtain ⟨full,hfull,rfl⟩ := List.mem_map.mp hrow
    obtain ⟨stmt,hstmt,rfl⟩ := List.mem_map.mp (hrows.subset hfull)
    exact ⟨stmt,hstmt,rfl⟩
  obtain ⟨stmt,hstmt,rfl⟩ := List.mem_map.mp hr
  have hin : (rowOf P uuid4 w.id dsl stmt).toAction ∈ w.graph.actions := by
    apply List.mem_map_of_mem
    exact hrows.symm.subset (List.mem_map_of_mem hstmt)
  obtain ⟨row,hrow⟩ := Option.isSome_iff_exists.mp (Workflow.find?_isSome hin)
  refine ⟨row,hrow,?_⟩
  obtain ⟨hrow,hid⟩ := Workflow.find?_some hrow
  obtain ⟨other,hother,rfl⟩ := hmem row hrow
  have href : other.ref = stmt.ref := hids (List.mem_map_of_mem hother) hr hid
  exact congrArg titleOf href

theorem mem_dependsOn_rowOf (stmt : ActionStatement) (x : String) :
    x ∈ w.graph.dependsOn P.slugify (rowOf P uuid4 w.id dsl stmt).toAction ↔
      ∃ d ∈ stmt.dependsOn, d ∈ dsl.refs ∧ x = P.slugify (titleOf d) := by
  have hedge : ∀ d ∈ dsl.refs, w.graph.edgeDependency P.slugify ⟨(uuid4 d).str,.udf,some .success⟩ =
      some (P.slugify (titleOf d)) := by
    intro d hd
    obtain ⟨row,hrow,htitle⟩ := find?_uuid4 hids hrows hd
    rw [edgeDependency_of_str rfl, hrow, Option.map_some]
    exact congrArg (fun title => some (P.slugify title)) htitle
  have htrigger : w.graph.edgeDependency P.slugify ⟨"trigger-" ++ w.id.str,.trigger,none⟩ = none :=
    edgeDependency_of_trigger (show _ = w.graph.triggerId from rfl)
  have hedges : (rowOf P uuid4 w.id dsl stmt).toAction.upstreamEdges = _ := upstreamEdges_rowOf stmt
  rw [Workflow.dependsOn, List.mem_mergeSort, List.mem_filterMap, hedges]
  constructor
  · rintro ⟨e,he,hx⟩
    split at he
    · obtain ⟨d,hd,hde⟩ := List.mem_filterMap.mp he
      split at hde
      · rename_i hr
        rw [Option.some.injEq] at hde
        rw [← hde, hedge d hr, Option.some.injEq] at hx
        exact ⟨d,hd,hr,hx.symm⟩
      · cases hde
    · rw [List.mem_singleton.mp he, htrigger] at hx
      cases hx
  · rintro ⟨d,hd,hr,rfl⟩
    refine ⟨⟨(uuid4 d).str,.udf,some .success⟩,?_,hedge d hr⟩
    rw [if_pos (List.ne_nil_of_mem hd)]
    exact List.mem_filterMap.mpr ⟨d,hd,if_pos hr⟩

end

theorem loadArgs_ok {P : Packages} {inputs : String} {value : Value} {es : List (String × Value)}
    (h : P.safeLoad inputs = some value) (hs : value.Same (.dict es)) :
    ∃ args, loadArgs P inputs = .ok args ∧ (Value.dict args).Same (.dict es) := by
  obtain ⟨es',rfl⟩ := hs.dict
  unfold loadArgs
  rw [h]
  cases es' with
  | nil => exact ⟨[],rfl,hs⟩
  | cons e es' => exact ⟨e :: es',rfl,hs⟩

theorem ActionStatement.new_eq_ok {a b : ActionStatement} :
    a.new = .ok b ↔ (isSlug a.ref ∧ isActionType a.action ∧
      a.retryPolicy.retryUntil.all fun s => isStandaloneTemplate s.toList) ∧
      (a.interaction.isSome → ¬ a.forEach.any fun f => f.expressions ≠ []) ∧ b = a := by
  have hfields : (isSlug a.ref ∧ isActionType a.action ∧
      a.retryPolicy.retryUntil.all fun s => isStandaloneTemplate s.toList) ↔
      (isSlug a.ref && isActionType a.action &&
        a.retryPolicy.retryUntil.all fun s => isStandaloneTemplate s.toList) = true := by
    rw [Bool.and_eq_true, Bool.and_eq_true, and_assoc]
  rw [hfields, ActionStatement.new]
  generalize (isSlug a.ref && isActionType a.action &&
    a.retryPolicy.retryUntil.all fun s => isStandaloneTemplate s.toList) = fields
  generalize a.interaction.isSome = interactive
  generalize (a.forEach.any fun f => f.expressions ≠ []) = looping
  cases fields <;> cases interactive <;> cases looping <;> simp [eq_comm]

theorem DSLInput.new_eq_ok {P : Packages} {dsl b : DSLInput} :
    dsl.new P = .ok b ↔ validateStructure (dsl.scheduled P) = .ok () ∧ b = dsl := by
  unfold DSLInput.new
  cases h : validateStructure (dsl.scheduled P) with
  | error e => simp
  | ok u => simp [eq_comm]

theorem scheduled_refs (P : Packages) (dsl : DSLInput) : (dsl.scheduled P).refs = dsl.refs := by
  unfold Allama.DSLInput.refs DSLInput.refs DSLInput.scheduled
  rw [List.map_map]
  rfl

theorem DSLInput.Accepted.scheduled {P : Packages} {dsl : DSLInput} (h : dsl.Accepted P) :
    (dsl.scheduled P).Accepted := by
  refine ⟨?_,(DSLInput.new_eq_ok.mp h.2).1⟩
  intro r hr
  rw [scheduled_refs] at hr
  obtain ⟨a,ha,rfl⟩ := List.mem_map.mp hr
  exact (ActionStatement.new_eq_ok.mp (h.1 a ha)).1.1

theorem DSLInput.Accepted.nonempty {P : Packages} {dsl : DSLInput} (h : dsl.Accepted P) : dsl.actions ≠ [] := by
  intro hnil
  apply h.scheduled.checks.nonempty
  rw [DSLInput.scheduled, hnil]
  rfl

theorem DSLInput.Accepted.nodup {P : Packages} {dsl : DSLInput} (h : dsl.Accepted P) : dsl.refs.Nodup := by
  rw [← scheduled_refs P]
  exact h.scheduled.checks.nodup

/-- The typed edges that `depends_on` lists. -/
def ActionStatement.deps (a : ActionStatement) : List AdjDst := a.dependsOn.filterMap edgeComponentsFromDep

/-- Two statements of one action with the same edges, arguments, control flow and interaction. -/
structure ActionStatement.Same (a' a : ActionStatement) : Prop where
  deps : ∀ d, d ∈ a'.deps ↔ d ∈ a.deps
  args : (Value.dict a'.args).Same (.dict a.args)
  runIf : a'.runIf = a.runIf
  forEach : a'.forEach = a.forEach
  retryPolicy : a'.retryPolicy = a.retryPolicy
  startDelay : a'.startDelay = a.startDelay
  waitUntil : a'.waitUntil = a.waitUntil
  joinStrategy : a'.joinStrategy = a.joinStrategy
  environment : a'.environment = a.environment
  interaction : a'.interaction = a.interaction

structure DSLInput.Same (dsl' dsl : DSLInput) : Prop where
  refs : ∀ r, r ∈ dsl'.refs ↔ r ∈ dsl.refs
  actions : ∀ a' ∈ dsl'.actions, ∀ a ∈ dsl.actions, a'.ref = a.ref → a'.Same a
  returns : dsl'.returns = dsl.returns
  errorHandler : dsl'.errorHandler = dsl.errorHandler

/-- What the rows can hold of an action: a ref without an underscore at an end or beside another, dependencies
on success that are listed by the bare ref, a control flow within the bounds of its row, and neither an
interaction nor an environment. -/
structure ActionStatement.Storable (P : Packages) (a : ActionStatement) : Prop where
  ref : [] ∉ refParts a.ref
  deps : ∀ dep ∈ a.dependsOn, ∃ src ∈ a.dependsOn, edgeComponentsFromDep dep = some (src,.success)
  controlFlow : a.controlFlow.isValid P
  interaction : a.interaction = none
  environment : a.environment = none

structure DSLInput.Storable (P : Packages) (dsl : DSLInput) : Prop where
  actions : ∀ a ∈ dsl.actions, a.Storable P
  errorHandler : dsl.errorHandler = none

/-- A statement as it is built again. -/
def rebuiltStatement (P : Packages) (dependsOn : List String) (a : ActionStatement) (args : List (String × Value)) :
    ActionStatement :=
  {a with
    ref := P.slugify (titleOf a.ref)
    description := ""
    args := args
    dependsOn := dependsOn
    interaction := none
    environment := none}

section
variable {P : Packages} {uuid4 : String → Uuid} {dsl : DSLInput} {w : WorkflowRow} {a : ActionStatement}

theorem buildActionStatement_rowOf (hnew : a.new = .ok a) (hvalid : a.controlFlow.isValid P)
    (hyaml : ∃ v, P.safeLoad (P.dump (.dict a.args)) = some v ∧ v.Same (.dict a.args)) :
    ∃ args, (Value.dict args).Same (.dict a.args) ∧
      buildActionStatement P w (rowOf P uuid4 w.id dsl a) =
        (rebuiltStatement P (w.graph.dependsOn P.slugify (rowOf P uuid4 w.id dsl a).toAction) a args).new := by
  obtain ⟨v,hload,hv⟩ := hyaml
  obtain ⟨args,hargs,hsame⟩ := loadArgs_ok hload hv
  refine ⟨args,hsame,?_⟩
  have hflow : ActionControlFlow.modelValidate P (rowOf P uuid4 w.id dsl a).controlFlow = .ok a.controlFlow :=
    modelValidate_dump (ActionStatement.new_eq_ok.mp hnew).1.2.2 hvalid
  have hinputs : loadArgs P (rowOf P uuid4 w.id dsl a).inputs = .ok args := hargs
  unfold buildActionStatement
  rw [hflow]
  simp only [bind, Except.bind, hinputs]
  rfl

theorem DSLInput.Storable.slugify_titleOf (hslug : P.Slugifies) (hacc : dsl.Accepted P) (hst : dsl.Storable P) :
    ∀ r ∈ dsl.refs, isSlug r ∧ P.slugify (titleOf r) = r := by
  intro r hr
  obtain ⟨b,hb,rfl⟩ := List.mem_map.mp hr
  have hs := (ActionStatement.new_eq_ok.mp (hacc.1 b hb)).1.1
  exact ⟨hs,(slugify_titleOf_eq hslug hs).mpr (hst.actions b hb).ref⟩

theorem mem_deps_rebuilt (hslug : P.Slugifies) (hacc : dsl.Accepted P) (hst : dsl.Storable P)
    (ha : a ∈ dsl.actions) {dependsOn : List String} {args : List (String × Value)}
    (hdeps : ∀ x, x ∈ dependsOn ↔ ∃ d ∈ a.dependsOn, d ∈ dsl.refs ∧ x = P.slugify (titleOf d)) (e : AdjDst) :
    e ∈ (rebuiltStatement P dependsOn a args).deps ↔ e ∈ a.deps := by
  have hrefs := hst.slugify_titleOf hslug hacc
  unfold ActionStatement.deps
  rw [List.mem_filterMap, List.mem_filterMap]
  constructor
  · rintro ⟨x,hx,he⟩
    obtain ⟨d,hd,hr,rfl⟩ := (hdeps x).mp hx
    rw [(hrefs d hr).2] at he
    exact ⟨d,hd,he⟩
  · rintro ⟨dep,hdep,he⟩
    obtain ⟨src,hsrc,hparse⟩ := (hst.actions a ha).deps dep hdep
    rw [hparse, Option.some.injEq] at he
    -- the source of an edge of an accepted DSL is one of its actions
    have hr : src ∈ dsl.refs := by
      rw [← scheduled_refs P]
      have hmem : a.scheduled P ∈ (dsl.scheduled P).actions := List.mem_map_of_mem ha
      exact (hacc.scheduled.checks).sources _ hmem (src,.success) (List.mem_filterMap.mpr ⟨dep,hdep,hparse⟩)
    refine ⟨src,(hdeps src).mpr ⟨src,hsrc,hr,(hrefs src hr).2.symm⟩,?_⟩
    rw [edgeComponentsFromDep_slug (hrefs src hr).1, he]

theorem rebuilt_expressions {dependsOn : List String} {args : List (String × Value)}
    (hst : a.Storable P) (hslug : P.slugify (titleOf a.ref) = a.ref) (hargs : (Value.dict args).Same (.dict a.args))
    (hdeps : ∀ x ∈ dependsOn, x ∈ a.dependsOn) :
    List.Forall₂ (fun f' f => f'.1 = f.1 ∧ ∀ d ∈ extractExpressions P f'.2, d ∈ extractExpressions P f.2)
      (rebuiltStatement P dependsOn a args).modelDump a.modelDump := by
  have hmono : ∀ v' v : Value, (∀ s ∈ v'.strings, s ∈ v.strings) →
      ∀ d ∈ extractExpressions P v', d ∈ extractExpressions P v := by
    intro v' v h d hd
    obtain ⟨s,hs,hd⟩ := List.mem_flatMap.mp hd
    exact List.mem_flatMap.mpr ⟨s,h s hs,hd⟩
  have hsame : ∀ v : Value, ∀ d ∈ extractExpressions P v, d ∈ extractExpressions P v := fun _ _ h => h
  unfold ActionStatement.modelDump rebuiltStatement
  rw [hslug, hst.interaction, hst.environment]
  refine .cons ⟨rfl,hsame _⟩ (.cons ⟨rfl,?_⟩ (.cons ⟨rfl,hsame _⟩ (.cons ⟨rfl,?_⟩ (.cons ⟨rfl,?_⟩
    (.cons ⟨rfl,hsame _⟩ (.cons ⟨rfl,hsame _⟩ (.cons ⟨rfl,hsame _⟩ (.cons ⟨rfl,hsame _⟩ (.cons ⟨rfl,hsame _⟩
    (.cons ⟨rfl,hsame _⟩ (.cons ⟨rfl,hsame _⟩ (.cons ⟨rfl,hsame _⟩ .nil))))))))))))
  · intro d hd
    cases hd
  · exact hmono _ _ fun s hs => hargs.strings.mp hs
  · apply hmono
    intro s hs
    rw [Value.strings, mem_itemStrings] at hs ⊢
    obtain ⟨v,hv,hs⟩ := hs
    obtain ⟨x,hx,rfl⟩ := List.mem_map.mp hv
    exact ⟨.str x,List.mem_map_of_mem (hdeps x hx),hs⟩

/-- `validate_structure` finds the same edges in a statement built again. -/
theorem sameSources_rebuilt (hslug : P.Slugifies) (hacc : dsl.Accepted P) (hst : dsl.Storable P)
    (ha : a ∈ dsl.actions) {dependsOn : List String} {args : List (String × Value)}
    (hargs : (Value.dict args).Same (.dict a.args))
    (hdeps : ∀ x, x ∈ dependsOn ↔ ∃ d ∈ a.dependsOn, d ∈ dsl.refs ∧ x = P.slugify (titleOf d)) :
    SameSources ((rebuiltStatement P dependsOn a args).scheduled P) (a.scheduled P) := by
  have hedges : ∀ e, e ∈ (rebuiltStatement P dependsOn a args).deps ↔ e ∈ a.deps :=
    mem_deps_rebuilt hslug hacc hst ha hdeps
  have href := hst.slugify_titleOf hslug hacc
  refine ⟨(href a.ref (List.mem_map_of_mem ha)).2,rfl,?_,?_,?_⟩
  · intro dep hdep
    obtain ⟨d,_,hr,rfl⟩ := (hdeps dep).mp hdep
    rw [(href d hr).2, edgeComponentsFromDep_slug (href d hr).1]
    rfl
  · intro s
    exact exists_congr fun e => and_congr_left fun _ => hedges e
  · intro e he d hd
    obtain ⟨field,hfield,rfl⟩ := List.mem_map.mp he
    have hkept : ∀ x ∈ dependsOn, x ∈ a.dependsOn := by
      intro x hx
      obtain ⟨d,hd,hr,rfl⟩ := (hdeps x).mp hx
      rw [(href d hr).2]
      exact hd
    have hfields := rebuilt_expressions (hst.actions a ha) (href a.ref (List.mem_map_of_mem ha)).2 hargs hkept
    obtain ⟨old,hold,hkey,hsub⟩ := exists_of_forall₂ hfields hfield
    exact ⟨(old.1,extractExpressions P old.2),List.mem_map_of_mem hold,hkey.symm,hsub d hd⟩

end

section
variable {P : Packages} {uuid4 : String → Uuid} {workflowId : Uuid} {select : List ActionRow → List ActionRow}
  {dsl dsl' : DSLInput}

/-- The workflow that is made of `dsl`, as the database gives it back. -/
def stored (P : Packages) (uuid4 : String → Uuid) (workflowId : Uuid) (select : List ActionRow → List ActionRow)
    (dsl : DSLInput) : WorkflowRow where
  id := workflowId
  title := dsl.title
  description := dsl.description
  returns := dsl.returns
  config := dumpConfig dsl.config
  expects := dsl.expects
  actions := select (dsl.actions.map (rowOf P uuid4 workflowId dsl))

theorem rebuild_eq_ok (hselect : ∀ rows, (select rows).Perm rows) (hne : dsl.actions ≠ []) :
    rebuild P uuid4 workflowId select dsl = .ok dsl' ↔
      (∀ a ∈ dsl.actions, a.controlFlow.isValid P) ∧ ∃ statements,
        (stored P uuid4 workflowId select dsl).actions.mapM
          (buildActionStatement P (stored P uuid4 workflowId select dsl)) = .ok statements ∧
        dsl' = {dsl with actions := statements, errorHandler := none} ∧
        validateStructure (dsl'.scheduled P) = .ok () := by
  have hrows : (stored P uuid4 workflowId select dsl).actions ≠ [] := by
    intro hnil
    have hlen := (hselect (dsl.actions.map (rowOf P uuid4 workflowId dsl))).length_eq
    rw [show select _ = [] from hnil, List.length_nil, List.length_map] at hlen
    exact hne (List.eq_nil_of_length_eq_zero hlen.symm)
  have hbuild : buildDslFromWorkflow P (stored P uuid4 workflowId select dsl) = .ok dsl' ↔ ∃ statements,
      (stored P uuid4 workflowId select dsl).actions.mapM
        (buildActionStatement P (stored P uuid4 workflowId select dsl)) = .ok statements ∧
      dsl' = {dsl with actions := statements, errorHandler := none} ∧
      validateStructure (dsl'.scheduled P) = .ok () := by
    unfold buildDslFromWorkflow
    rw [if_neg hrows, bind_eq_ok]
    apply exists_congr
    intro statements
    apply and_congr_right
    intro _
    rw [show (stored P uuid4 workflowId select dsl).config = dumpConfig dsl.config from rfl, readConfig_dump]
    constructor
    · intro hnew
      obtain ⟨hok,rfl⟩ := DSLInput.new_eq_ok.mp hnew
      exact ⟨rfl,hok⟩
    · rintro ⟨rfl,hok⟩
      exact DSLInput.new_eq_ok.mpr ⟨hok,rfl⟩
  rw [← hbuild]
  unfold rebuild createDbWorkflowFromDsl
  simp only [bind_eq_ok, createActionsFromDsl_eq_ok]
  constructor
  · rintro ⟨w,⟨rows,⟨hvalid,rfl⟩,hw⟩,hok⟩
    rw [← Except.ok.inj hw] at hok
    exact ⟨hvalid,hok⟩
  · rintro ⟨hvalid,hok⟩
    exact ⟨_,⟨_,⟨hvalid,rfl⟩,rfl⟩,hok⟩

theorem exists_perm_map {α β : Type} {f : α → β} {l : List α} {l' : List β} (h : l'.Perm (l.map f)) :
    ∃ as : List α, as.Perm l ∧ l' = as.map f := by
  have hrows : List.Forall₂ (fun row a => row = f a) (l.map f) l :=
    List.forall₂_map_left_iff.mpr (List.forall₂_same.mpr fun _ _ => rfl)
  obtain ⟨as,has,hperm⟩ := List.perm_comp_forall₂ h hrows
  have heq : List.Forall₂ (· = ·) l' (as.map f) := List.forall₂_map_right_iff.mpr has
  rw [List.forall₂_eq_eq_eq] at heq
  exact ⟨as,hperm,heq⟩

/-- `a'` is what the row of `a` is built into. -/
def IsRebuilt (P : Packages) (uuid4 : String → Uuid) (dsl : DSLInput) (w : WorkflowRow) (a a' : ActionStatement) :
    Prop :=
  ∃ args, (Value.dict args).Same (.dict a.args) ∧
    a' = rebuiltStatement P (w.graph.dependsOn P.slugify (rowOf P uuid4 w.id dsl a).toAction) a args

theorem rebuild_isRebuilt (hacc : dsl.Accepted P) (hselect : ∀ rows, (select rows).Perm rows)
    (hyaml : ∀ a ∈ dsl.actions, ∃ v, P.safeLoad (P.dump (.dict a.args)) = some v ∧ v.Same (.dict a.args))
    (h : rebuild P uuid4 workflowId select dsl = .ok dsl') :
    (∀ a ∈ dsl.actions, a.controlFlow.isValid P) ∧ dsl' = {dsl with actions := dsl'.actions, errorHandler := none} ∧
      ∃ as : List ActionStatement, as.Perm dsl.actions ∧
        List.Forall₂ (IsRebuilt P uuid4 dsl (stored P uuid4 workflowId select dsl)) as dsl'.actions := by
  obtain ⟨hvalid,statements,hmap,rfl,-⟩ := (rebuild_eq_ok hselect hacc.nonempty).mp h
  obtain ⟨as,hperm,hrows⟩ := exists_perm_map (hselect (dsl.actions.map (rowOf P uuid4 workflowId dsl)))
  refine ⟨hvalid,rfl,as,hperm,?_⟩
  rw [show (stored P uuid4 workflowId select dsl).actions = _ from hrows, List.mapM_map, mapM_eq_ok] at hmap
  have hboth := (List.forall₂_and_left _ _).mpr ⟨fun a ha => hperm.subset ha,hmap⟩
  apply hboth.imp
  intro a a' ⟨ha,hok⟩
  have hrow : ∃ args, (Value.dict args).Same (.dict a.args) ∧
      buildActionStatement P (stored P uuid4 workflowId select dsl) (rowOf P uuid4 workflowId dsl a) = _ :=
    buildActionStatement_rowOf (hacc.1 a ha) (hvalid a ha) (hyaml a ha)
  obtain ⟨args,hargs,hrow⟩ := hrow
  refine ⟨args,hargs,?_⟩
  exact (ActionStatement.new_eq_ok.mp (hrow.symm.trans hok)).2.2

/-- What can be stored is built again. -/
theorem exists_rebuild (hslug : P.Slugifies) (hacc : dsl.Accepted P) (hids : Set.InjOn uuid4 {r | r ∈ dsl.refs})
    (hselect : ∀ rows, (select rows).Perm rows)
    (hyaml : ∀ a ∈ dsl.actions, ∃ v, P.safeLoad (P.dump (.dict a.args)) = some v ∧ v.Same (.dict a.args))
    (hst : dsl.Storable P) : ∃ dsl', rebuild P uuid4 workflowId select dsl = .ok dsl' := by
  have hdeps : ∀ a x, x ∈ (stored P uuid4 workflowId select dsl).graph.dependsOn P.slugify
      (rowOf P uuid4 workflowId dsl a).toAction ↔ ∃ d ∈ a.dependsOn, d ∈ dsl.refs ∧ x = P.slugify (titleOf d) :=
    mem_dependsOn_rowOf hids (hselect _)
  obtain ⟨as,hperm,hrows⟩ := exists_perm_map (hselect (dsl.actions.map (rowOf P uuid4 workflowId dsl)))
  have hbuilt : ∀ a ∈ as, ∃ a', buildActionStatement P (stored P uuid4 workflowId select dsl)
      (rowOf P uuid4 workflowId dsl a) = .ok a' ∧ SameSources (a'.scheduled P) (a.scheduled P) := by
    intro a ha
    have ha := hperm.subset ha
    have hsa := hst.actions a ha
    obtain ⟨hfs,-,-⟩ := ActionStatement.new_eq_ok.mp (hacc.1 a ha)
    have hrow : ∃ args, (Value.dict args).Same (.dict a.args) ∧
        buildActionStatement P (stored P uuid4 workflowId select dsl) (rowOf P uuid4 workflowId dsl a) = _ :=
      buildActionStatement_rowOf (hacc.1 a ha) hsa.controlFlow (hyaml a ha)
    obtain ⟨args,hargs,hrow⟩ := hrow
    have hsame := sameSources_rebuilt hslug hacc hst ha hargs (hdeps a)
    refine ⟨_,hrow.trans (ActionStatement.new_eq_ok.mpr ⟨⟨?_,hfs.2⟩,?_,rfl⟩),hsame⟩
    · rw [show (rebuiltStatement P _ a args).ref = a.ref from hsame.ref]
      exact hfs.1
    · intro hi
      cases hi
  obtain ⟨statements,hmap,hall⟩ := exists_mapM_eq_ok hbuilt
  refine ⟨{dsl with actions := statements, errorHandler := none},(rebuild_eq_ok hselect hacc.nonempty).mpr
    ⟨fun a ha => (hst.actions a ha).controlFlow,statements,?_,rfl,?_⟩⟩
  · rw [show (stored P uuid4 workflowId select dsl).actions = _ from hrows, List.mapM_map]
    exact hmap
  · apply (accepted_of_relisted hacc.scheduled _).2
    refine ⟨as.map (ActionStatement.scheduled P),hperm.map _,?_⟩
    apply List.forall₂_map_left_iff.mpr
    apply List.forall₂_map_right_iff.mpr
    exact hall.flip

/-- A DSL that is built again as it was could be stored. -/
theorem storable_of_same (hslug : P.Slugifies) (hacc : dsl.Accepted P) (hids : Set.InjOn uuid4 {r | r ∈ dsl.refs})
    (hselect : ∀ rows, (select rows).Perm rows)
    (hyaml : ∀ a ∈ dsl.actions, ∃ v, P.safeLoad (P.dump (.dict a.args)) = some v ∧ v.Same (.dict a.args))
    (hok : rebuild P uuid4 workflowId select dsl = .ok dsl') (hsame : dsl'.Same dsl) : dsl.Storable P := by
  obtain ⟨hvalid,hdsl,as,hperm,hall⟩ := rebuild_isRebuilt hacc hselect hyaml hok
  have hslugs : ∀ a ∈ dsl.actions, isSlug a.ref := fun a ha =>
    (ActionStatement.new_eq_ok.mp (hacc.1 a ha)).1.1
  have hparts : ∀ a ∈ dsl.actions, [] ∉ refParts a.ref := by
    intro a ha
    -- the ref is the slug of a title
    obtain ⟨b',hb',href⟩ := List.mem_map.mp ((hsame.refs a.ref).mpr (List.mem_map_of_mem ha))
    obtain ⟨b,hb,args,_,rfl⟩ := exists_of_forall₂ hall.flip hb'
    have hslugb : P.slugify (titleOf b.ref) = a.ref := href
    have hne : a.ref ≠ "" := fun h => isSlug_ne_nil (hslugs a ha) (by rw [h]; rfl)
    rw [← hslugb] at hne ⊢
    exact refParts_slugify hslug (hslugs b (hperm.subset hb)) hne
  have hback : ∀ r ∈ dsl.refs, isSlug r ∧ P.slugify (titleOf r) = r := by
    intro r hr
    obtain ⟨a,ha,rfl⟩ := List.mem_map.mp hr
    exact ⟨hslugs a ha,(slugify_titleOf_eq hslug (hslugs a ha)).mpr (hparts a ha)⟩
  have hrebuilt : ∀ a ∈ dsl.actions, ∃ args, (rebuiltStatement P
      ((stored P uuid4 workflowId select dsl).graph.dependsOn P.slugify (rowOf P uuid4 workflowId dsl a).toAction)
      a args).Same a := by
    intro a ha
    obtain ⟨a',ha',args,_,rfl⟩ := exists_of_forall₂ hall (hperm.symm.subset ha)
    exact ⟨args,hsame.actions _ ha' a ha (hback a.ref (List.mem_map_of_mem ha)).2⟩
  refine ⟨?_,?_⟩
  · intro a ha
    obtain ⟨args,hs⟩ := hrebuilt a ha
    refine ⟨hparts a ha,?_,hvalid a ha,hs.interaction.symm,hs.environment.symm⟩
    intro dep hdep
    obtain ⟨e,he⟩ := Option.isSome_iff_exists.mp
      (hacc.scheduled.checks.parses (a.scheduled P) (List.mem_map_of_mem ha) dep hdep)
    have hmem := (hs.deps e).mpr (List.mem_filterMap.mpr ⟨dep,hdep,he⟩)
    obtain ⟨x,hx,hxe⟩ := List.mem_filterMap.mp hmem
    -- an edge that comes back comes from the bare ref of an action
    obtain ⟨d,hd,hr,rfl⟩ := (mem_dependsOn_rowOf hids (hselect _) a x).mp hx
    rw [(hback d hr).2, edgeComponentsFromDep_slug (hback d hr).1] at hxe
    exact ⟨d,hd,he.trans hxe.symm⟩
  · rw [← hsame.errorHandler, hdsl]

end

/-- Packages that treat the texts of the DSL below as the real ones do. -/
def samplePackages : Packages where
  slugify := fun s => String.ofList (['_'].intercalate (words (s.toList.map Char.toLower)))
  dump
    | .dict [("value",.str "x")] => "value: x\n"
    | _ => "\x7b\x7d\n"
  safeLoad text :=
    if text = "value: x\n" then some (.dict [("value",.str "x")])
    else if text = "\x7b\x7d\n" then some (.dict [])
    else none
  parsesDate := fun _ => false
  actionRefs := fun _ => []

theorem samplePackages_slugifies : samplePackages.Slugifies := by
  intro t _
  unfold samplePackages
  simp only [String.toList_ofList]

/-- Two actions, of which the second depends on `dep`. -/
def pairDSL (dep : String) : DSLInput where
  title := "pair"
  description := ""
  actions := [{ref := "a", action := "core.transform.reshape", args := [("value",.str "x")]},
    {ref := "b", action := "core.transform.reshape", dependsOn := [dep]}]
  config := ⟨"default",0⟩

def sampleIds (ref : String) : Uuid := Uuid.ofDigit (if ref = "a" then 1 else 2)

theorem pairDSL_accepted {dep : String} (h : validateStructure ((pairDSL dep).scheduled samplePackages) = .ok ()) :
    (pairDSL dep).Accepted samplePackages := by
  have hslugs : isSlug "a" ∧ isSlug "b" ∧ isActionType "core.transform.reshape" := by decide
  refine ⟨?_,DSLInput.new_eq_ok.mpr ⟨h,rfl⟩⟩
  intro a ha
  simp only [pairDSL, List.mem_cons, List.not_mem_nil, or_false] at ha
  apply ActionStatement.new_eq_ok.mpr
  rcases ha with rfl | rfl
  · exact ⟨⟨hslugs.1,hslugs.2.2,rfl⟩,fun hi => absurd hi Bool.false_ne_true,rfl⟩
  · exact ⟨⟨hslugs.2.1,hslugs.2.2,rfl⟩,fun hi => absurd hi Bool.false_ne_true,rfl⟩

theorem pairDSL_args (dep : String) : ∀ a ∈ (pairDSL dep).actions,
    ∃ v, samplePackages.safeLoad (samplePackages.dump (.dict a.args)) = some v ∧ v.Same (.dict a.args) := by
  intro a ha
  simp only [pairDSL, List.mem_cons, List.not_mem_nil, or_false] at ha
  rcases ha with rfl | rfl
  · exact ⟨_,rfl,rfl⟩
  · exact ⟨_,rfl,rfl⟩

theorem sampleIds_injOn (dep : String) : Set.InjOn sampleIds {r | r ∈ (pairDSL dep).refs} := by
  have hrefs : (pairDSL dep).refs = ["a","b"] := rfl
  have hdistinct : ∀ r ∈ ["a","b"], ∀ r' ∈ ["a","b"], sampleIds r = sampleIds r' → r = r' := by decide
  intro r hr r' hr'
  exact hdistinct r (hrefs ▸ hr) r' (hrefs ▸ hr')

theorem pairDSL_storable : (pairDSL "a").Storable samplePackages := by
  have hparts : [] ∉ refParts "a" ∧ [] ∉ refParts "b" := by decide
  have hedge : edgeComponentsFromDep "a" = some ("a",.success) := by decide
  refine ⟨?_,rfl⟩
  intro a ha
  simp only [pairDSL, List.mem_cons, List.not_mem_nil, or_false] at ha
  rcases ha with rfl | rfl
  · exact ⟨hparts.1,fun dep hdep => absurd hdep List.not_mem_nil,rfl,rfl,rfl⟩
  · refine ⟨hparts.2,?_,rfl,rfl,rfl⟩
    intro dep hdep
    rw [List.mem_singleton.mp hdep]
    exact ⟨"a",List.mem_singleton.mpr rfl,hedge⟩

end Management
end Allama
