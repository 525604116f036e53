import Mathlib.Data.List.Chain
import Allama.CasePages
import Allama.Keyset

/-! Cases are listed page by page in their order. A reverse request flips the comparison with its cursor, but not the order:
it starts from the first case that matches. -/
namespace Allama
namespace Cases
open Keyset
open Tables (Cursor PageError Packages SortDirection SortValue encodeCursor decodeCursor parseDatetimeString
  validateSortValue dumpSortValue)

section Specification
variable (fromIsoformat : String → Option Int) (isoformat : Int → String) (ilike : String → String → Bool)
  (workspace_id : Nat) (cases : List Case) (q : ListParams) (limit : Nat)

/-- In the sort column the text of a datetime reads as the datetime, and that of an enumeration as no datetime. -/
structure Documented : Prop where
  datetime : ∀ case ∈ cases, ∀ t, case.sortValue q.sortColumn = .datetime t →
    parseDatetimeString (packages fromIsoformat isoformat) (isoformat t) = .datetime t
  enum : ∀ case ∈ cases, ∀ text, case.sortValue q.sortColumn = .enum text →
    parseDatetimeString (packages fromIsoformat isoformat) text = .str text

/-- Requests with one filter, sort and page size. -/
def fetch (reverse : Bool) (cursor : Option (Cursor Scalar)) : Except PageError CursorPaginatedResponse :=
  listCasesPaginated fromIsoformat isoformat ilike workspace_id cases q ⟨limit,cursor,reverse⟩

/-- The pages that `next_cursor` leads through, to one without a next cursor. -/
inductive Forward (request : Option (Cursor Scalar) → Except PageError CursorPaginatedResponse) :
    Option (Cursor Scalar) → List CursorPaginatedResponse → Prop
  | last {cursor : Option (Cursor Scalar)} {r : CursorPaginatedResponse} : request cursor = .ok r →
      r.next_cursor = none → Forward request cursor [r]
  | more {cursor : Option (Cursor Scalar)} {next : Cursor Scalar} {r : CursorPaginatedResponse}
      {rs : List CursorPaginatedResponse} : request cursor = .ok r → r.next_cursor = some next →
      Forward request (some next) rs → Forward request cursor (r :: rs)

/-- From a page the previous cursor leads back to the page before, whose cursors lead to the page, and further back if
there is a page further back. -/
def StepsBack (before page : CursorPaginatedResponse) : Prop :=
  ∃ cursor r, page.prev_cursor = some cursor ∧
    fetch fromIsoformat isoformat ilike workspace_id cases q limit true (some cursor) = .ok r ∧ r.items = before.items ∧
    (∃ next r', r.next_cursor = some next ∧
      fetch fromIsoformat isoformat ilike workspace_id cases q limit false (some next) = .ok r' ∧ r'.items = page.items) ∧
    r.prev_cursor.isSome = before.prev_cursor.isSome

/-- Following `next_cursor` gives every case that matches once, in order, and every page leads back to the one before. -/
def Paginates : Prop :=
  ∃ rs, ∃ L : List Case, Forward (fetch fromIsoformat isoformat ilike workspace_id cases q limit false) none rs ∧
    L.Perm (cases.filter (filters ilike workspace_id q)) ∧
    L.Pairwise (fun a b => orderedBefore q.sortDirection q.sortColumn a b = true) ∧
    (rs.map CursorPaginatedResponse.items).flatten = L.map Case.readMinimal ∧
    rs.IsChain (StepsBack fromIsoformat isoformat ilike workspace_id cases q limit)

/-- The cases that match, in order. -/
def listing : List Case :=
  (cases.filter (filters ilike workspace_id q)).mergeSort (orderedBefore q.sortDirection q.sortColumn)

def cursorFor (case : Case) : Cursor Scalar :=
  ⟨.uuid case.id,q.sortColumn.name,dumpSortValue (packages fromIsoformat isoformat)
    (validateSortValue (packages fromIsoformat isoformat) (case.sortValue q.sortColumn))⟩

end Specification

section Order

/-- One case comes strictly before another. -/
def precedes (direction : SortDirection) (column : OrderBy) (a b : Case) : Prop :=
  match direction with
  | .asc => a.rank column < b.rank column ∨ (a.rank column = b.rank column ∧ a.id < b.id)
  | .desc => b.rank column < a.rank column ∨ (a.rank column = b.rank column ∧ b.id < a.id)

variable {direction : SortDirection} {column : OrderBy} {a b : Case}

theorem precedes_asymm (h : precedes direction column a b) : ¬ precedes direction column b a := by
  intro h'
  cases direction with
  | asc =>
    unfold precedes at h h'
    omega
  | desc =>
    unfold precedes at h h'
    omega

theorem orderedBefore_trans (direction : SortDirection) (column : OrderBy) (a b c : Case)
    (h : orderedBefore direction column a b = true) (h' : orderedBefore direction column b c = true) :
    orderedBefore direction column a c = true := by
  cases direction with
  | asc =>
    simp only [orderedBefore, decide_eq_true_eq] at *
    omega
  | desc =>
    simp only [orderedBefore, decide_eq_true_eq] at *
    omega

theorem orderedBefore_total (direction : SortDirection) (column : OrderBy) (a b : Case) :
    (orderedBefore direction column a b || orderedBefore direction column b a) = true := by
  cases direction with
  | asc =>
    simp only [orderedBefore, Bool.or_eq_true, decide_eq_true_eq]
    omega
  | desc =>
    simp only [orderedBefore, Bool.or_eq_true, decide_eq_true_eq]
    omega

theorem id_eq_of_orderedBefore (h : orderedBefore direction column a b = true)
    (h' : orderedBefore direction column b a = true) : a.id = b.id := by
  cases direction with
  | asc =>
    simp only [orderedBefore, decide_eq_true_eq] at *
    omega
  | desc =>
    simp only [orderedBefore, decide_eq_true_eq] at *
    omega

theorem precedes_of_orderedBefore (h : orderedBefore direction column a b = true) (hne : a.id ≠ b.id) :
    precedes direction column a b := by
  cases direction with
  | asc =>
    simp only [orderedBefore, decide_eq_true_eq] at h
    unfold precedes
    omega
  | desc =>
    simp only [orderedBefore, decide_eq_true_eq] at h
    unfold precedes
    omega

theorem cursorCondition_forward : cursorCondition direction false column (a.rank column) a.id b = true ↔
    precedes direction column a b := by
  cases direction with
  | asc =>
    simp only [cursorCondition, isBehind, precedes, decide_eq_true_eq]
    omega
  | desc =>
    simp only [cursorCondition, isBefore, precedes, decide_eq_true_eq]
    omega

theorem cursorCondition_backward : cursorCondition direction true column (a.rank column) a.id b = true ↔
    precedes direction column b a := by
  cases direction with
  | asc =>
    simp only [cursorCondition, isBefore, precedes, decide_eq_true_eq]
  | desc =>
    simp only [cursorCondition, isBehind, precedes, decide_eq_true_eq]

end Order

section Listing
variable {ilike : String → String → Bool} {workspace_id : Nat} {cases : List Case} {q : ListParams}

theorem listing_sorted : (listing ilike workspace_id cases q).Pairwise
    fun a b => orderedBefore q.sortDirection q.sortColumn a b = true :=
  List.pairwise_mergeSort (orderedBefore_trans _ _) (orderedBefore_total _ _) _

theorem listing_perm : (listing ilike workspace_id cases q).Perm (cases.filter (filters ilike workspace_id q)) :=
  List.mergeSort_perm _ _

theorem mem_of_listing {i : Nat} {e : Case} (hi : (listing ilike workspace_id cases q)[i]? = some e) : e ∈ cases :=
  (List.mem_filter.mp (listing_perm.subset (List.mem_of_getElem? hi))).1

theorem listing_ids (hid : (cases.map Case.id).Nodup) : ((listing ilike workspace_id cases q).map Case.id).Nodup :=
  (listing_perm.map Case.id).nodup_iff.mpr (hid.sublist (List.filter_sublist.map _))

theorem listing_strict (hid : (cases.map Case.id).Nodup) :
    (listing ilike workspace_id cases q).Pairwise (precedes q.sortDirection q.sortColumn) := by
  have hids : ((listing ilike workspace_id cases q).map Case.id).Nodup := listing_ids hid
  exact (listing_sorted.and (List.pairwise_map.mp hids)).imp fun h => precedes_of_orderedBefore h.1 h.2

theorem listing_filter (hid : (cases.map Case.id).Nodup) (keep : Case → Bool) :
    (cases.filter fun case => filters ilike workspace_id q case && keep case).mergeSort
        (orderedBefore q.sortDirection q.sortColumn) = (listing ilike workspace_id cases q).filter keep := by
  have hsorted := List.pairwise_mergeSort (orderedBefore_trans q.sortDirection q.sortColumn)
    (orderedBefore_total q.sortDirection q.sortColumn)
    (cases.filter fun case => filters ilike workspace_id q case && keep case)
  refine List.Perm.eq_of_pairwise ?_ hsorted (listing_sorted.filter _) ?_
  · intro a b ha hb hab hba
    have ha' := (List.mem_filter.mp (List.mem_mergeSort.mp ha)).1
    have hb' := (List.mem_filter.mp (listing_perm.subset (List.mem_of_mem_filter hb))).1
    exact List.inj_on_of_nodup_map hid ha' hb' (id_eq_of_orderedBefore hab hba)
  · refine (List.mergeSort_perm _ _).trans (.trans ?_ (listing_perm.filter _).symm)
    rw [List.filter_filter]
    apply List.Perm.of_eq
    apply List.filter_congr
    intro case _
    rw [Bool.and_comm]

end Listing

section Requests
variable {fromIsoformat : String → Option Int} {isoformat : Int → String} {ilike : String → String → Bool}
  {workspace_id : Nat} {cases : List Case} {q : ListParams} {limit : Nat} {e : Case}

theorem rank_sortValue (column : OrderBy) (case : Case) :
    column.rank (case.sortValue column) = some (case.rank column) := by
  have hsome : (column.rank (case.sortValue column)).isSome := by
    cases column with
    | created_at => rfl
    | updated_at => rfl
    | priority =>
      simp only [OrderBy.rank, Case.sortValue]
      cases case.priority <;> rfl
    | severity =>
      simp only [OrderBy.rank, Case.sortValue]
      cases case.severity <;> rfl
    | status =>
      simp only [OrderBy.rank, Case.sortValue]
      cases case.status <;> rfl
    | tasks => rfl
  obtain ⟨r,hr⟩ := Option.isSome_iff_exists.mp hsome
  rw [hr, Case.rank, hr, Option.getD_some]

theorem caseCursor_eq (q : ListParams) (case : Case) :
    caseCursor fromIsoformat isoformat q case = .ok (cursorFor fromIsoformat isoformat q case) := by
  have hsome : (validateSortValue (packages fromIsoformat isoformat) (case.sortValue q.sortColumn)).isSome := by
    cases q.sortColumn <;> rfl
  obtain ⟨v,hv⟩ := Option.isSome_iff_exists.mp hsome
  unfold caseCursor cursorFor encodeCursor
  dsimp only
  rw [hv]
  rfl

theorem sortValue_ne_uuid (column : OrderBy) (case : Case) (id : Nat) : case.sortValue column ≠ .uuid id := by
  cases column <;> exact Scalar.noConfusion

theorem decode_cursorFor (h : Documented fromIsoformat isoformat cases q) (he : e ∈ cases) :
    ∃ sortValue, decodeCursor (packages fromIsoformat isoformat) (cursorFor fromIsoformat isoformat q e) =
        .ok ⟨.uuid e.id,q.sortColumn.name,some sortValue⟩ ∧ operand sortValue = some (e.sortValue q.sortColumn) := by
  unfold cursorFor
  cases hvalue : e.sortValue q.sortColumn with
  | uuid id => exact absurd hvalue (sortValue_ne_uuid _ _ _)
  | datetime t =>
    refine ⟨.datetime t,?_,rfl⟩
    change Except.ok (Tables.CursorData.mk _ _
      (some (parseDatetimeString (packages fromIsoformat isoformat) (isoformat t)))) = _
    rw [h.datetime e he t hvalue]
  | enum text =>
    refine ⟨.str text,?_,rfl⟩
    have hread := h.enum e he text hvalue
    have hsent : validateSortValue (packages fromIsoformat isoformat) (.enum text) = some (.str text) := congrArg some hread
    rw [hsent]
    change Except.ok (Tables.CursorData.mk _ _
      (some (parseDatetimeString (packages fromIsoformat isoformat) text))) = _
    rw [hread]
  | count n => exact ⟨.int n,rfl,rfl⟩

theorem whereCursor_cursorFor (h : Documented fromIsoformat isoformat cases q) (he : e ∈ cases) (reverse : Bool) :
    whereCursor fromIsoformat isoformat q reverse (some (cursorFor fromIsoformat isoformat q e)) =
      .ok (cursorCondition q.sortDirection reverse q.sortColumn (e.rank q.sortColumn) e.id) := by
  obtain ⟨sortValue,hdecode,hoperand⟩ := decode_cursorFor h he
  unfold whereCursor
  simp only [hdecode, bind, Except.bind, if_true, hoperand, Option.bind_some, rank_sortValue]
  rfl

/-- A page of what comes behind a cursor, or of everything. -/
def forwardPage (fromIsoformat : String → Option Int) (isoformat : Int → String) (q : ListParams) (limit total : Nat)
    (back : Bool) (ys : List Case) : CursorPaginatedResponse where
  items := (ys.take limit).map Case.readMinimal
  next_cursor := if limit < ys.length then (ys[limit-1]?).map (cursorFor fromIsoformat isoformat q) else none
  prev_cursor := if back then ys.head?.map (cursorFor fromIsoformat isoformat q) else none
  has_more := decide (limit < ys.length)
  has_previous := back
  total_estimate := total

/-- The page of the listing from a position on. -/
abbrev pageAt (fromIsoformat : String → Option Int) (isoformat : Int → String) (ilike : String → String → Bool)
    (workspace_id : Nat) (cases : List Case) (q : ListParams) (limit : Nat) (back : Bool) (i : Nat) :
    CursorPaginatedResponse :=
  forwardPage fromIsoformat isoformat q limit (cases.countP (filters ilike workspace_id q)) back
    ((listing ilike workspace_id cases q).drop i)

theorem cursorOf_eq (q : ListParams) (wanted : Bool) (case : Option Case) : cursorOf fromIsoformat isoformat q wanted case =
    .ok (if wanted then case.map (cursorFor fromIsoformat isoformat q) else none) := by
  cases wanted with
  | false => cases case <;> rfl
  | true =>
    cases case with
    | none => rfl
    | some case =>
      change (caseCursor fromIsoformat isoformat q case).map some = _
      rw [caseCursor_eq]
      rfl

theorem head?_page (hlimit : 1 ≤ limit) (ys : List Case) : (ys.take limit).head? = ys.head? := by
  cases ys with
  | nil => simp
  | cons y ys =>
    obtain ⟨m,rfl⟩ : ∃ m, limit = m+1 := ⟨limit-1,by omega⟩
    rfl

theorem respond_eq (hlimit : 1 ≤ limit) (q : ListParams) (total : Nat) (cursor : Option (Cursor Scalar)) (reverse : Bool)
    (ys : List Case) : respond fromIsoformat isoformat q ⟨limit,cursor,reverse⟩ total (ys.take (limit+1)) =
      .ok
        { forwardPage fromIsoformat isoformat q limit total cursor.isSome ys with
          next_cursor :=
            if reverse then (forwardPage fromIsoformat isoformat q limit total cursor.isSome ys).prev_cursor.or
              (forwardPage fromIsoformat isoformat q limit total cursor.isSome ys).next_cursor
            else (forwardPage fromIsoformat isoformat q limit total cursor.isSome ys).next_cursor
          prev_cursor :=
            if reverse then none else (forwardPage fromIsoformat isoformat q limit total cursor.isSome ys).prev_cursor } := by
  unfold respond forwardPage
  by_cases hlength : limit < ys.length
  · have hmore : decide (limit < (ys.take (limit+1)).length) = true := by
      rw [List.length_take, decide_eq_true_eq]
      omega
    have hlast : (ys.take limit).getLast? = ys[limit-1]? := by
      rw [List.getLast?_eq_getElem?, List.length_take, Nat.min_eq_left hlength.le, List.getElem?_take_of_lt (by omega)]
    have htake : (ys.take (limit+1)).take limit = ys.take limit := by
      rw [List.take_take, Nat.min_eq_left (Nat.le_succ limit)]
    simp only [hmore, if_true, htake, cursorOf_eq, bind, Except.bind, pure, Except.pure, head?_page hlimit, hlast, hlength,
      decide_true]
  · have htake : ys.take (limit+1) = ys.take limit := by
      rw [List.take_of_length_le (by omega), List.take_of_length_le (by omega)]
    -- the query asks for one case more than the page has, which tells whether there are more
    have hmore : decide (limit < (ys.take limit).length) = false := by
      rw [List.length_take, decide_eq_false_iff_not]
      omega
    simp only [htake, hmore, Bool.false_eq_true, if_false, cursorOf_eq, bind, Except.bind, pure, Except.pure,
      head?_page hlimit, hlength, decide_false]

section Fetched
variable (hdoc : Documented fromIsoformat isoformat cases q) (hid : (cases.map Case.id).Nodup) (hlimit : 1 ≤ limit)
  (hterm : checkSearchTerm q.search_term = .ok ())
include hid hlimit hterm

omit hlimit in
theorem fetch_eq {reverse : Bool} {cursor : Option (Cursor Scalar)} {keep : Case → Bool}
    (hkeep : whereCursor fromIsoformat isoformat q reverse cursor = .ok keep) :
    fetch fromIsoformat isoformat ilike workspace_id cases q limit reverse cursor =
      respond fromIsoformat isoformat q ⟨limit,cursor,reverse⟩ (cases.countP (filters ilike workspace_id q))
        (((listing ilike workspace_id cases q).filter keep).take (limit+1)) := by
  unfold fetch listCasesPaginated
  simp only [hterm, hkeep, bind, Except.bind]
  rw [listing_filter hid]

theorem fetch_first : fetch fromIsoformat isoformat ilike workspace_id cases q limit false none =
    .ok (forwardPage fromIsoformat isoformat q limit (cases.countP (filters ilike workspace_id q)) false
      (listing ilike workspace_id cases q)) := by
  have hall : (listing ilike workspace_id cases q).filter (fun _ => true) = listing ilike workspace_id cases q :=
    List.filter_eq_self.mpr fun _ _ => rfl
  rw [fetch_eq hid hterm rfl, hall, respond_eq hlimit]
  rfl

include hdoc

theorem fetch_forward {i : Nat} {e : Case} (hi : (listing ilike workspace_id cases q)[i]? = some e) :
    fetch fromIsoformat isoformat ilike workspace_id cases q limit false (some (cursorFor fromIsoformat isoformat q e)) =
      .ok (forwardPage fromIsoformat isoformat q limit (cases.countP (filters ilike workspace_id q)) true
        ((listing ilike workspace_id cases q).drop (i+1))) := by
  have hbehind := filter_behind (listing_strict hid) (fun _ _ => precedes_asymm) hi fun _ => cursorCondition_forward
  rw [fetch_eq hid hterm (whereCursor_cursorFor hdoc (mem_of_listing hi) false), hbehind, respond_eq hlimit]
  rfl

theorem fetch_backward {i : Nat} {e : Case} (hi : (listing ilike workspace_id cases q)[i]? = some e) :
    ∃ r, fetch fromIsoformat isoformat ilike workspace_id cases q limit true
        (some (cursorFor fromIsoformat isoformat q e)) = .ok r ∧
      r.items = (((listing ilike workspace_id cases q).take i).take limit).map Case.readMinimal ∧
      (∀ first, ((listing ilike workspace_id cases q).take i).head? = some first →
        r.next_cursor = some (cursorFor fromIsoformat isoformat q first)) ∧ r.prev_cursor = none := by
  have hbefore := filter_before (listing_strict hid) (fun _ _ => precedes_asymm) hi fun _ => cursorCondition_backward
  have hr : fetch fromIsoformat isoformat ilike workspace_id cases q limit true
      (some (cursorFor fromIsoformat isoformat q e)) = _ := fetch_eq hid hterm (whereCursor_cursorFor hdoc (mem_of_listing hi) true)
  rw [hbefore, respond_eq hlimit] at hr
  refine ⟨_,hr,rfl,?_,rfl⟩
  intro first hfirst
  change ((if true then ((listing ilike workspace_id cases q).take i).head?.map _ else none).or _ :
    Option (Cursor Scalar)) = _
  rw [hfirst]
  rfl

theorem forward_from {ys : List Case} {pages : List (List Case)} (k : Nat)
    (h : Pages limit (fun e => some ((listing ilike workspace_id cases q).filter
      fun a => cursorCondition q.sortDirection false q.sortColumn (e.rank q.sortColumn) e.id a)) ys pages)
    (hys : ys = (listing ilike workspace_id cases q).drop k) {cursor : Option (Cursor Scalar)} {back : Bool}
    (hfetch : fetch fromIsoformat isoformat ilike workspace_id cases q limit false cursor =
      .ok (forwardPage fromIsoformat isoformat q limit (cases.countP (filters ilike workspace_id q)) back ys)) :
    ∃ rs, Forward (fetch fromIsoformat isoformat ilike workspace_id cases q limit false) cursor rs ∧
      rs.map CursorPaginatedResponse.items = pages.map (List.map Case.readMinimal) := by
  induction h generalizing cursor back k with
  | @last ys hlength =>
    -- the last page takes everything that is left
    refine ⟨_,.last hfetch (if_neg (by omega)),?_⟩
    change [(ys.take limit).map Case.readMinimal] = [ys.map Case.readMinimal]
    rw [List.take_of_length_le hlength]
  | @more ys zs e pages hlength he hrest hpages ih =>
    -- the cursor of the last case of a page leads to what is behind it in the listing
    subst hys
    rw [List.getElem?_drop] at he
    have hnext := fetch_forward hdoc hid hlimit hterm he
    have hzs : zs = (listing ilike workspace_id cases q).drop (k+(limit-1)+1) := by
      rw [← Option.some.inj hrest]
      exact filter_behind (listing_strict hid) (fun _ _ => precedes_asymm) he fun _ => cursorCondition_forward
    rw [← hzs] at hnext
    obtain ⟨rs,hforward,hitems⟩ := ih _ hzs hnext
    refine ⟨_,.more hfetch ?_ hforward,?_⟩
    · change (if _ then _ else none) = _
      rw [if_pos hlength, List.getElem?_drop, he]
      rfl
    · rw [List.map_cons, List.map_cons, hitems]
      rfl

/-- Following `next_cursor` lists every case that matches once, in order. -/
theorem forward_listing :
    ∃ rs, Forward (fetch fromIsoformat isoformat ilike workspace_id cases q limit false) none rs ∧
      (rs.map CursorPaginatedResponse.items).flatten = (listing ilike workspace_id cases q).map Case.readMinimal := by
  have hborders : Borders limit (listing ilike workspace_id cases q) (fun _ => true)
      (fun e => some ((listing ilike workspace_id cases q).filter
        fun a => cursorCondition q.sortDirection false q.sortColumn (e.rank q.sortColumn) e.id a)) := by
    refine ⟨fun _ _ => rfl,?_⟩
    intro k hk hlt
    have hpos : limit ≤ k*limit := Nat.le_mul_of_pos_left limit hk
    obtain ⟨e,he⟩ : ∃ e, (listing ilike workspace_id cases q)[k*limit-1]? = some e :=
      ⟨_,List.getElem?_eq_getElem (by omega)⟩
    refine ⟨e,he,?_⟩
    have hbehind := filter_behind (listing_strict hid) (fun _ _ => precedes_asymm) he fun _ => cursorCondition_forward
    refine congrArg some (hbehind.trans ?_)
    rw [Nat.sub_add_cancel (by omega)]
  obtain ⟨pages,hpages,hflat⟩ := pages_of_borders hlimit hborders 0
  rw [Nat.zero_mul, List.drop_zero] at hpages hflat
  obtain ⟨rs,hforward,hitems⟩ := forward_from hdoc hid hlimit hterm 0 hpages List.drop_zero.symm
    (fetch_first hid hlimit hterm)
  refine ⟨rs,hforward,?_⟩
  rw [hitems, ← hflat, List.map_flatten]

theorem stepsBack_spec {i : Nat} (hpos : 0 < i) (hlt : i < (listing ilike workspace_id cases q).length)
    {before : CursorPaginatedResponse}
    (hback : StepsBack fromIsoformat isoformat ilike workspace_id cases q limit before
      (pageAt fromIsoformat isoformat ilike workspace_id cases q limit true i)) :
    before.items = (((listing ilike workspace_id cases q).take i).take limit).map Case.readMinimal ∧
      (((listing ilike workspace_id cases q).drop 1).take limit).map Case.readMinimal =
        (((listing ilike workspace_id cases q).drop i).take limit).map Case.readMinimal := by
  obtain ⟨cursor,r,hcursor,hr,hitems,⟨next,r',hnext,hr',hitems'⟩,-⟩ := hback
  obtain ⟨e,he⟩ : ∃ e, (listing ilike workspace_id cases q)[i]? = some e := ⟨_,List.getElem?_eq_getElem hlt⟩
  obtain ⟨first,hfirst⟩ : ∃ first, (listing ilike workspace_id cases q)[0]? = some first :=
    ⟨_,List.getElem?_eq_getElem (by omega)⟩
  obtain rfl : cursorFor fromIsoformat isoformat q e = cursor := by
    change ((listing ilike workspace_id cases q).drop i).head?.map _ = some cursor at hcursor
    rw [List.head?_drop, he] at hcursor
    exact Option.some.inj hcursor
  obtain ⟨r₀,hr₀,hitems₀,hnext₀,-⟩ := fetch_backward hdoc hid hlimit hterm he
  obtain rfl : r₀ = r := Except.ok.inj (hr₀.symm.trans hr)
  have hhead : ((listing ilike workspace_id cases q).take i).head? = some first := by
    rw [List.head?_eq_getElem?, List.getElem?_take_of_lt hpos]
    exact hfirst
  obtain rfl : cursorFor fromIsoformat isoformat q first = next :=
    Option.some.inj ((hnext₀ first hhead).symm.trans hnext)
  have hforward := fetch_forward hdoc hid hlimit hterm hfirst
  obtain rfl := Except.ok.inj (hforward.symm.trans hr')
  exact ⟨hitems.symm.trans hitems₀,hitems'⟩

omit hdoc hlimit hterm in
theorem position_eq {i j : Nat} {a b : Case} (hi : (listing ilike workspace_id cases q)[i]? = some a)
    (hj : (listing ilike workspace_id cases q)[j]? = some b) (hread : a.readMinimal = b.readMinimal) : i = j := by
  have hids : ((listing ilike workspace_id cases q).map Case.id).Nodup := listing_ids hid
  have hsame : a.id = b.id := congrArg CaseReadMinimal.id hread
  have hi' : ((listing ilike workspace_id cases q).map Case.id)[i]? = some a.id := by rw [List.getElem?_map, hi]; rfl
  have hj' : ((listing ilike workspace_id cases q).map Case.id)[j]? = some a.id := by rw [List.getElem?_map, hj, hsame]; rfl
  exact (List.getElem?_inj (List.getElem?_eq_some_iff.mp hi').1 hids).mp (hi'.trans hj'.symm)

/-- The page behind a page that has more. -/
theorem next_page {i : Nat} (hlt : i + limit < (listing ilike workspace_id cases q).length) {back : Bool}
    {rs : List CursorPaginatedResponse} {cursor : Option (Cursor Scalar)}
    (hfetch : fetch fromIsoformat isoformat ilike workspace_id cases q limit false cursor =
      .ok (pageAt fromIsoformat isoformat ilike workspace_id cases q limit back i))
    (h : Forward (fetch fromIsoformat isoformat ilike workspace_id cases q limit false) cursor rs) :
    ∃ next rs', rs = pageAt fromIsoformat isoformat ilike workspace_id cases q limit back i ::
        pageAt fromIsoformat isoformat ilike workspace_id cases q limit true (i+limit) :: rs' ∧
      fetch fromIsoformat isoformat ilike workspace_id cases q limit false (some next) =
        .ok (pageAt fromIsoformat isoformat ilike workspace_id cases q limit true (i+limit)) ∧
      Forward (fetch fromIsoformat isoformat ilike workspace_id cases q limit false) (some next)
        (pageAt fromIsoformat isoformat ilike workspace_id cases q limit true (i+limit) :: rs') := by
  obtain ⟨e,he⟩ : ∃ e, (listing ilike workspace_id cases q)[i+(limit-1)]? = some e :=
    ⟨_,List.getElem?_eq_getElem (by omega)⟩
  have hnext : (pageAt fromIsoformat isoformat ilike workspace_id cases q limit back i).next_cursor =
      some (cursorFor fromIsoformat isoformat q e) := by
    change (if limit < ((listing ilike workspace_id cases q).drop i).length then
      (((listing ilike workspace_id cases q).drop i)[limit-1]?).map _ else none) = _
    rw [if_pos (by rw [List.length_drop]; omega), List.getElem?_drop, he]
    rfl
  have hfetched := fetch_forward hdoc hid hlimit hterm he
  have hposition : i+(limit-1)+1 = i+limit := by omega
  rw [hposition] at hfetched
  -- pages are functions of their cursors, so that those that are followed are these
  cases h with
  | last hr hnone =>
    obtain rfl := Except.ok.inj (hfetch.symm.trans hr)
    rw [hnext] at hnone
    cases hnone
  | @more _ next r rs hr hsome hrest =>
    obtain rfl := Except.ok.inj (hfetch.symm.trans hr)
    obtain rfl : cursorFor fromIsoformat isoformat q e = next := Option.some.inj (hnext.symm.trans hsome)
    cases hrest with
    | last hr' hnone =>
      obtain rfl := Except.ok.inj (hfetched.symm.trans hr')
      exact ⟨_,[],rfl,hfetched,.last hr' hnone⟩
    | more hr' hsome' hrest' =>
      obtain rfl := Except.ok.inj (hfetched.symm.trans hr')
      exact ⟨_,_,rfl,hfetched,.more hr' hsome' hrest'⟩

/-- Pages that lead back are one page, or two of one case. -/
theorem few_of_chain {rs : List CursorPaginatedResponse}
    (h : Forward (fetch fromIsoformat isoformat ilike workspace_id cases q limit false) none rs)
    (hchain : rs.IsChain (StepsBack fromIsoformat isoformat ilike workspace_id cases q limit))
    (hmany : limit < (listing ilike workspace_id cases q).length) :
    limit = 1 ∧ (listing ilike workspace_id cases q).length = 2 := by
  have hfirst : fetch fromIsoformat isoformat ilike workspace_id cases q limit false none =
      .ok (pageAt fromIsoformat isoformat ilike workspace_id cases q limit false 0) :=
    fetch_first hid hlimit hterm
  have hmany' : 0+limit < (listing ilike workspace_id cases q).length := by omega
  obtain ⟨next,rs',rfl,hsecond,hrest⟩ := next_page hdoc hid hlimit hterm hmany' hfirst h
  rw [List.isChain_cons_cons, Nat.zero_add] at hchain
  rw [Nat.zero_add] at hsecond hrest
  -- the page behind the first case has the second page's cases
  have hback := (stepsBack_spec hdoc hid hlimit hterm (by omega) hmany hchain.1).2
  obtain ⟨a,ha⟩ : ∃ a, (listing ilike workspace_id cases q)[1]? = some a := ⟨_,List.getElem?_eq_getElem (by omega)⟩
  obtain ⟨b,hb⟩ : ∃ b, (listing ilike workspace_id cases q)[limit]? = some b := ⟨_,List.getElem?_eq_getElem hmany⟩
  have hheads := congrArg List.head? hback
  rw [List.head?_map, List.head?_map, head?_page hlimit, head?_page hlimit, List.head?_drop, List.head?_drop, ha, hb]
    at hheads
  obtain rfl : 1 = limit := position_eq hid ha hb (Option.some.inj hheads)
  refine ⟨rfl,?_⟩
  by_contra htwo
  have hthree : 1+1 < (listing ilike workspace_id cases q).length := by omega
  obtain ⟨next',rs'',heq,-,-⟩ := next_page hdoc hid hlimit hterm hthree hsecond hrest
  obtain ⟨-,rfl⟩ := List.cons.inj heq
  -- the third page leads back to the first case instead of the second
  have hitems := (stepsBack_spec hdoc hid hlimit hterm (by omega) hthree (List.isChain_cons_cons.mp hchain.2).1).1
  obtain ⟨first,hzero⟩ : ∃ first, (listing ilike workspace_id cases q)[0]? = some first :=
    ⟨_,List.getElem?_eq_getElem (by omega)⟩
  have hitems' : (((listing ilike workspace_id cases q).drop 1).take 1).map Case.readMinimal =
      (((listing ilike workspace_id cases q).take (1+1)).take 1).map Case.readMinimal := hitems
  have hheads' := congrArg List.head? hitems'
  rw [List.head?_map, List.head?_map, head?_page hlimit, head?_page hlimit, List.head?_drop, List.head?_eq_getElem?,
    List.getElem?_take_of_lt (by omega), ha, hzero] at hheads'
  have hposition : 1 = 0 := position_eq hid ha hzero (Option.some.inj hheads')
  omega

theorem chain_of_two (hone : limit = 1) (htwo : (listing ilike workspace_id cases q).length = 2) :
    ∃ rs, Forward (fetch fromIsoformat isoformat ilike workspace_id cases q limit false) none rs ∧
      (rs.map CursorPaginatedResponse.items).flatten = (listing ilike workspace_id cases q).map Case.readMinimal ∧
      rs.IsChain (StepsBack fromIsoformat isoformat ilike workspace_id cases q limit) := by
  subst hone
  obtain ⟨a,b,hlisting⟩ : ∃ a b, listing ilike workspace_id cases q = [a,b] := List.length_eq_two.mp htwo
  have ha : (listing ilike workspace_id cases q)[0]? = some a := by
    rw [hlisting]
    rfl
  have hb : (listing ilike workspace_id cases q)[1]? = some b := by
    rw [hlisting]
    rfl
  have hfirst : fetch fromIsoformat isoformat ilike workspace_id cases q 1 false none = _ := fetch_first hid hlimit hterm
  have hsecond : fetch fromIsoformat isoformat ilike workspace_id cases q 1 false
      (some (cursorFor fromIsoformat isoformat q a)) = _ := fetch_forward hdoc hid hlimit hterm ha
  obtain ⟨r,hr,hitems,hnext,hprev⟩ := fetch_backward hdoc hid hlimit hterm hb
  rw [hlisting] at hfirst hsecond hitems hnext
  refine ⟨_,.more hfirst rfl (.last hsecond rfl),?_,?_⟩
  · rw [hlisting]
    rfl
  · rw [List.isChain_cons_cons]
    exact ⟨⟨_,r,rfl,hr,hitems,⟨_,_,hnext a rfl,hsecond,rfl⟩,by rw [hprev]; rfl⟩,List.isChain_singleton _⟩

end Fetched

/-- Cases are listed and led back through exactly if they fit on one page, or are two on pages of one. -/
theorem paginates_iff (hdoc : Documented fromIsoformat isoformat cases q) (hid : (cases.map Case.id).Nodup) (hlimit : 1 ≤ limit)
    (hterm : checkSearchTerm q.search_term = .ok ()) :
    Paginates fromIsoformat isoformat ilike workspace_id cases q limit ↔
      cases.countP (filters ilike workspace_id q) ≤ limit ∨
        (limit = 1 ∧ cases.countP (filters ilike workspace_id q) = 2) := by
  have hlength : cases.countP (filters ilike workspace_id q) = (listing ilike workspace_id cases q).length := by
    rw [List.countP_eq_length_filter]
    exact listing_perm.length_eq.symm
  rw [hlength]
  constructor
  · rintro ⟨rs,L,hforward,-,-,-,hchain⟩
    by_cases hle : (listing ilike workspace_id cases q).length ≤ limit
    · exact .inl hle
    · exact .inr (few_of_chain hdoc hid hlimit hterm hforward hchain (by omega))
  · rintro (hle | ⟨hone,htwo⟩)
    · refine ⟨_,_,.last (fetch_first hid hlimit hterm) (if_neg (by omega)),listing_perm,listing_sorted,?_,
        List.isChain_singleton _⟩
      change [((listing ilike workspace_id cases q).take limit).map Case.readMinimal].flatten = _
      rw [List.flatten_cons, List.flatten_nil, List.append_nil, List.take_of_length_le hle]
    · obtain ⟨rs,hforward,hflat,hchain⟩ := chain_of_two hdoc hid hlimit hterm hone htwo
      exact ⟨rs,_,hforward,listing_perm,listing_sorted,hflat,hchain⟩

/-- Cases of one workspace that differ in their ids and tasks. -/
def sampleCase (id : Nat) (tasks : List CaseTaskStatus) : Case where
  id := id
  workspace_id := 1
  case_number := id
  created_at := 0
  updated_at := 0
  summary := "Unusual sign-in"
  description := ""
  status := .new
  priority := .high
  severity := .medium
  assignee_id := none
  tags := []
  tasks := tasks

def byTasks : ListParams := ⟨none,[],[],[],[],false,[],some .tasks,some .asc⟩

theorem documented_byTasks (cases : List Case) :
    Documented (fun _ => none) (fun t => toString t) cases byTasks :=
  ⟨fun _ _ _ h => (Scalar.noConfusion h),fun _ _ _ h => (Scalar.noConfusion h)⟩

theorem paginates_two : Paginates (fun _ => none) (fun t => toString t) (fun _ _ => false) 1
    [sampleCase 1 [.todo],sampleCase 2 [.todo]] byTasks 1 :=
  (paginates_iff (documented_byTasks _) (by decide) le_rfl rfl).mpr (.inr ⟨rfl,by decide⟩)

theorem forward_listing_three : ∃ rs,
    Forward (fetch (fun _ => none) (fun t => toString t) (fun _ _ => false) 1
      [sampleCase 1 [.todo],sampleCase 2 [.todo],sampleCase 3 [.todo]] byTasks 1 false) none rs ∧
    (rs.map CursorPaginatedResponse.items).flatten = (listing (fun _ _ => false) 1
      [sampleCase 1 [.todo],sampleCase 2 [.todo],sampleCase 3 [.todo]] byTasks).map Case.readMinimal :=
  forward_listing (documented_byTasks _) (by decide) le_rfl rfl

/-- The last of three pages leads back to the first. -/
theorem not_paginates_three : ¬ Paginates (fun _ => none) (fun t => toString t) (fun _ _ => false) 1
    [sampleCase 1 [.todo],sampleCase 2 [.todo],sampleCase 3 [.todo]] byTasks 1 := by
  rintro ⟨rs,L,hforward,-,-,-,hchain⟩
  have hlength : (listing (fun _ _ => false) 1 [sampleCase 1 [.todo],sampleCase 2 [.todo],sampleCase 3 [.todo]]
      byTasks).length = 3 := listing_perm.length_eq.trans (by decide)
  have hmany : 1 < (listing (fun _ _ => false) 1 [sampleCase 1 [.todo],sampleCase 2 [.todo],sampleCase 3 [.todo]]
      byTasks).length := by
    rw [hlength]
    decide
  have hfew := few_of_chain (documented_byTasks _) (by decide) le_rfl rfl hforward hchain hmany
  rw [hlength] at hfew
  exact absurd hfew.2 (by decide)

end Requests
end Cases
end Allama
