import Allama.SplitLists
import Allama.WorkflowRoundTrip

/-! The refs of the actions that are made from a DSL, as they are read back from their titles (`dsl/schemas.py`,
`identifiers/action.py`, `db/models.py`). -/
namespace Allama
open Checked SplitLists

namespace Management

/-- No underscore at either end of the ref, and no two in a row. -/
structure Tidy (r : String) : Prop where
  first : r.toList.head? ≠ some '_'
  last : r.toList.getLast? ≠ some '_'
  inside : ¬ ['_','_'] <:+: r.toList

theorem tidy_iff_all (r : String) : Tidy r ↔
    r.toList.head? ≠ some '_' ∧ r.toList.getLast? ≠ some '_' ∧ ¬ ['_','_'] <:+: r.toList :=
  ⟨fun h => ⟨h.first,h.last,h.inside⟩,fun h => ⟨h.1,h.2.1,h.2.2⟩⟩

instance : DecidablePred Tidy := fun r => decidable_of_iff' _ (tidy_iff_all r)

theorem tidy_iff {r : String} (hne : r.toList ≠ []) : Tidy r ↔ [] ∉ refParts r := by
  rw [tidy_iff_all, refParts, nil_mem_splitOn, not_or, not_or, not_or, and_iff_right hne]

theorem slugify_titleOf_iff {P : Packages} (hslug : P.Slugifies) {r : String} (hr : isSlug r) :
    P.slugify (titleOf r) = r ↔ Tidy r := by
  rw [slugify_titleOf_eq hslug hr, tidy_iff (isSlug_ne_nil hr)]

/-- `Action.ref` of each row. -/
def rowRefs (P : Packages) (rows : List ActionRow) : List String := rows.map fun row => row.ref P.slugify

/-- Read back from their rows, the actions of the DSL have their refs, and no two have the same. -/
structure RefsKept (P : Packages) (dsl : DSLInput) (rows : List ActionRow) : Prop where
  renamed : rowRefs P rows = dsl.refs
  merged : (rowRefs P rows).Nodup

section
variable {P : Packages} {uuid4 : String → Uuid} {workflowId : Uuid} {dsl dsl' : DSLInput} {rows : List ActionRow}

theorem rowRefs_created (h : createActionsFromDsl P uuid4 workflowId dsl = .ok rows) :
    rowRefs P rows = dsl.refs.map fun r => P.slugify (titleOf r) := by
  obtain ⟨-,rfl⟩ := createActionsFromDsl_eq_ok.mp h
  rw [rowRefs, DSLInput.refs, List.map_map, List.map_map]
  rfl

theorem DSLInput.Accepted.isSlug (hacc : dsl.Accepted P) : ∀ r ∈ dsl.refs, isSlug r := by
  intro r hr
  obtain ⟨a,ha,rfl⟩ := List.mem_map.mp hr
  exact (ActionStatement.new_eq_ok.mp (hacc.1 a ha)).1.1

theorem map_slugify_eq_iff (hslug : P.Slugifies) (hacc : dsl.Accepted P) :
    (dsl.refs.map fun r => P.slugify (titleOf r)) = dsl.refs ↔ ∀ r ∈ dsl.refs, Tidy r := by
  have hid : dsl.refs.map id = dsl.refs := List.map_id dsl.refs
  nth_rewrite 2 [← hid]
  rw [List.map_inj_left]
  apply forall₂_congr
  intro r hr
  exact slugify_titleOf_iff hslug (hacc.isSlug r hr)

theorem refsKept_iff (hslug : P.Slugifies) (hacc : dsl.Accepted P)
    (h : createActionsFromDsl P uuid4 workflowId dsl = .ok rows) :
    RefsKept P dsl rows ↔ ∀ r ∈ dsl.refs, Tidy r := by
  have hrows := rowRefs_created h
  rw [← map_slugify_eq_iff hslug hacc, ← hrows]
  constructor
  · intro hkept
    exact hkept.renamed
  · intro hrenamed
    exact ⟨hrenamed,by rw [hrenamed]; exact hacc.nodup⟩

theorem ref_buildActionStatement {w : WorkflowRow} {row : ActionRow} {stmt : ActionStatement}
    (h : buildActionStatement P w row = .ok stmt) : stmt.ref = row.ref P.slugify := by
  unfold buildActionStatement at h
  obtain ⟨_,_,h⟩ := bind_eq_ok.mp h
  obtain ⟨_,_,h⟩ := bind_eq_ok.mp h
  rw [(ActionStatement.new_eq_ok.mp h).2.2]

theorem refs_buildDslFromWorkflow {w : WorkflowRow} (h : buildDslFromWorkflow P w = .ok dsl') :
    dsl'.refs = rowRefs P w.actions := by
  unfold buildDslFromWorkflow at h
  split at h
  · cases h
  · obtain ⟨statements,hstatements,h⟩ := bind_eq_ok.mp h
    obtain ⟨_,_,h⟩ := bind_eq_ok.mp h
    rw [(DSLInput.new_eq_ok.mp h).2]
    have hrefs : List.Forall₂ (fun row stmt => row.ref P.slugify = stmt.ref) w.actions statements :=
      (mapM_eq_ok.mp hstatements).imp fun _ _ hstmt => (ref_buildActionStatement hstmt).symm
    have heq : List.Forall₂ (· = ·) (rowRefs P w.actions) (statements.map ActionStatement.ref) :=
      List.forall₂_map_left_iff.mpr (List.forall₂_map_right_iff.mpr hrefs)
    rw [List.forall₂_eq_eq_eq] at heq
    exact heq.symm

theorem refs_rebuild {select : List ActionRow → List ActionRow} (hselect : ∀ rows, (select rows).Perm rows)
    (h : rebuild P uuid4 workflowId select dsl = .ok dsl') :
    dsl'.refs.Perm (dsl.refs.map fun r => P.slugify (titleOf r)) := by
  obtain ⟨w,hw,hbuild⟩ := bind_eq_ok.mp h
  obtain ⟨rows,hrows,hw⟩ := bind_eq_ok.mp hw
  rw [refs_buildDslFromWorkflow hbuild, ← Except.ok.inj hw, ← rowRefs_created hrows]
  exact (hselect rows).map _

theorem perm_refs_rebuild_iff (hslug : P.Slugifies) (hacc : dsl.Accepted P)
    {select : List ActionRow → List ActionRow} (hselect : ∀ rows, (select rows).Perm rows)
    (h : rebuild P uuid4 workflowId select dsl = .ok dsl') :
    dsl'.refs.Perm dsl.refs ↔ ∀ r ∈ dsl.refs, Tidy r := by
  have hperm := refs_rebuild hselect h
  constructor
  · intro hkept r hr
    -- a ref that comes back is the slug of a title
    have hmem := hperm.subset (hkept.symm.subset hr)
    obtain ⟨d,hd,rfl⟩ := List.mem_map.mp hmem
    have hne := isSlug_ne_nil (hacc.isSlug _ hr)
    rw [tidy_iff hne]
    apply refParts_slugify hslug (hacc.isSlug d hd)
    intro hnil
    exact hne (by rw [hnil]; rfl)
  · intro htidy
    rwa [(map_slugify_eq_iff hslug hacc).mpr htidy] at hperm

end

/-- A ref comes back from its title exactly when it is tidy, and the actions of a DSL keep their refs, in their rows
and in the DSL that is built of these in whichever order, exactly when all of them are. -/
theorem refs_from_titles_iff (P : Packages) (hslug : P.Slugifies) :
    (∀ r, isSlug r → (P.slugify (titleOf r) = r ↔ Tidy r)) ∧
    ∀ (uuid4 : String → Uuid) (workflowId : Uuid) (dsl : DSLInput), dsl.Accepted P →
      (∀ rows, createActionsFromDsl P uuid4 workflowId dsl = .ok rows →
        (RefsKept P dsl rows ↔ ∀ r ∈ dsl.refs, Tidy r)) ∧
      ∀ (select : List ActionRow → List ActionRow) (dsl' : DSLInput), (∀ rows, (select rows).Perm rows) →
        rebuild P uuid4 workflowId select dsl = .ok dsl' →
        (dsl'.refs.Perm dsl.refs ↔ ∀ r ∈ dsl.refs, Tidy r) := by
  refine ⟨fun r hr => slugify_titleOf_iff hslug hr,?_⟩
  intro uuid4 workflowId dsl hacc
  refine ⟨fun rows hrows => refsKept_iff hslug hacc hrows,?_⟩
  intro select dsl' hselect hok
  exact perm_refs_rebuild_iff hslug hacc hselect hok

/-- Two actions without dependencies. -/
def twoDSL (first second : String) : DSLInput where
  title := "two"
  description := ""
  actions := [{ref := first, action := "core.transform.reshape"}, {ref := second, action := "core.transform.reshape"}]
  config := ⟨"default",0⟩

theorem twoDSL_accepted {first second : String} (hfirst : isSlug first) (hsecond : isSlug second)
    (h : validateStructure ((twoDSL first second).scheduled samplePackages) = .ok ()) :
    (twoDSL first second).Accepted samplePackages := by
  have htype : isActionType "core.transform.reshape" := by decide
  have hnew : ∀ ref, isSlug ref → ActionStatement.new {ref, action := "core.transform.reshape"} =
      .ok {ref, action := "core.transform.reshape"} := by
    intro ref href
    exact ActionStatement.new_eq_ok.mpr ⟨⟨href,htype,rfl⟩,fun hi => absurd hi Bool.false_ne_true,rfl⟩
  refine ⟨?_,DSLInput.new_eq_ok.mpr ⟨h,rfl⟩⟩
  intro a ha
  simp only [twoDSL, List.mem_cons, List.not_mem_nil, or_false] at ha
  rcases ha with rfl | rfl
  · exact hnew first hfirst
  · exact hnew second hsecond

/-- The rows and the DSL of two actions with tidy refs. -/
theorem refs_from_titles_two : samplePackages.slugify (titleOf "a_b") = "a_b" ∧
    (∃ rows, createActionsFromDsl samplePackages sampleIds (.ofDigit 0) (twoDSL "a_b" "c1") = .ok rows ∧
      RefsKept samplePackages (twoDSL "a_b" "c1") rows) ∧
    ∃ dsl', rebuild samplePackages sampleIds (.ofDigit 0) List.reverse (twoDSL "a_b" "c1") = .ok dsl' ∧
      dsl'.refs.Perm ["a_b","c1"] := by
  have htidy : ∀ r ∈ (twoDSL "a_b" "c1").refs, Tidy r := by decide
  have hacc : (twoDSL "a_b" "c1").Accepted samplePackages :=
    twoDSL_accepted (by decide) (by decide) (by decide)
  have hrefs := refs_from_titles_iff samplePackages samplePackages_slugifies
  obtain ⟨hrows,hbuilt⟩ := hrefs.2 sampleIds (.ofDigit 0) _ hacc
  refine ⟨(hrefs.1 "a_b" (by decide)).mpr (by decide),⟨_,rfl,(hrows _ rfl).mpr htidy⟩,?_⟩
  have hok : (rebuild samplePackages sampleIds (.ofDigit 0) List.reverse (twoDSL "a_b" "c1")).isOk := by decide +kernel
  cases h : rebuild samplePackages sampleIds (.ofDigit 0) List.reverse (twoDSL "a_b" "c1") with
  | error e =>
    rw [h] at hok
    cases hok
  | ok dsl' => exact ⟨dsl',rfl,(hbuilt List.reverse dsl' List.reverse_perm h).mpr htidy⟩

/-- Two actions whose refs differ in the number of underscores have one ref in their rows, and the DSL that is built
of these is refused; an action whose ref begins with an underscore is built again under another. -/
theorem underscores_merge_actions : (twoDSL "a_b" "a__b").Accepted samplePackages ∧
    samplePackages.slugify (titleOf "a__b") = "a_b" ∧
    (∃ rows, createActionsFromDsl samplePackages sampleIds (.ofDigit 0) (twoDSL "a_b" "a__b") = .ok rows ∧
      rowRefs samplePackages rows = ["a_b","a_b"] ∧ ¬ RefsKept samplePackages (twoDSL "a_b" "a__b") rows) ∧
    (¬ ∃ dsl', rebuild samplePackages sampleIds (.ofDigit 0) id (twoDSL "a_b" "a__b") = .ok dsl') ∧
    (twoDSL "_a" "b").Accepted samplePackages ∧
    ((rebuild samplePackages sampleIds (.ofDigit 0) id (twoDSL "_a" "b")).toOption.map DSLInput.refs) =
      some ["a","b"] := by
  have hmerged : (twoDSL "a_b" "a__b").Accepted samplePackages :=
    twoDSL_accepted (by decide) (by decide) (by decide)
  have hrenamed : (twoDSL "_a" "b").Accepted samplePackages :=
    twoDSL_accepted (by decide) (by decide) (by decide)
  refine ⟨hmerged,by decide,⟨_,rfl,by decide,?_⟩,?_,hrenamed,by decide +kernel⟩
  · intro hkept
    exact absurd hkept.merged (by decide)
  · intro ⟨dsl',hok⟩
    have herror : (rebuild samplePackages sampleIds (.ofDigit 0) id (twoDSL "a_b" "a__b")).isOk = false := by
      decide
    rw [hok] at herror
    cases herror

end Management
end Allama
