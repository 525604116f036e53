import Mathlib.Data.List.Sort
import Allama.Keyset
import Allama.RowPages

/-! The rows of a table, page by page: forward through `next_cursor`, and back through `prev_cursor`. -/
namespace Allama
namespace Tables
open Keyset
variable {limit : ℕ} {direction : SortDirection} {reverse : Bool}
variable {V D : Type} [LinearOrder V] {p : Packages V D} {table : Table} {q : ListParams V}
  {rows : List (Row V)} {conditions : List (Row V → Bool)} {row row' : Row V} {column : String}
variable {v : V} {L ys : List (Row V)}

theorem sortKey_le_iff {u u' : V} (h : row.get column = some u) (h' : row'.get column = some u') :
    sortKey column row ≤ sortKey column row' ↔ u < u' ∨ (u = u' ∧ row.id ≤ row'.id) := by
  rw [sortKey, sortKey, Prod.Lex.toLex_le_toLex, h, h']
  change ((u : WithTop V) < u' ∨ (u : WithTop V) = u' ∧ _) ↔ _
  rw [WithTop.coe_lt_coe, WithTop.coe_inj]
  split_ifs with hid
  · rw [Row.get, if_pos hid] at h h'
    cases h
    cases h'
    constructor
    · rintro (hlt | ⟨heq,-⟩)
      · exact .inl hlt
      · exact .inr ⟨heq,heq.le⟩
    · rintro (hlt | ⟨heq,-⟩)
      · exact .inl hlt
      · exact .inr ⟨heq,le_rfl⟩
  · rw [WithTop.coe_le_coe]

omit [LinearOrder V] in
theorem id_eq_of_sortKey_eq (h : sortKey column row = sortKey column row') : row.id = row'.id := by
  have hpair := Prod.mk.inj (toLex_inj.mp h)
  by_cases hid : column = "id"
  · rw [Row.get, Row.get, if_pos hid, if_pos hid] at hpair
    exact Option.some.inj hpair.1
  · have htie := hpair.2
    rw [if_neg hid, if_neg hid] at htie
    exact WithTop.coe_inj.mp htie

theorem sortsBefore_trans (direction : SortDirection) (column : String) (a b c : Row V)
    (hab : sortsBefore direction column a b = true) (hbc : sortsBefore direction column b c = true) :
    sortsBefore direction column a c = true := by
  cases direction with
  | asc =>
    simp only [sortsBefore, decide_eq_true_eq] at hab hbc ⊢
    exact hab.trans hbc
  | desc =>
    simp only [sortsBefore, decide_eq_true_eq] at hab hbc ⊢
    exact hbc.trans hab

theorem sortsBefore_total (direction : SortDirection) (column : String) (a b : Row V) :
    (sortsBefore direction column a b || sortsBefore direction column b a) = true := by
  cases direction with
  | asc =>
    simp only [sortsBefore, Bool.or_eq_true, decide_eq_true_eq]
    exact le_total _ _
  | desc =>
    simp only [sortsBefore, Bool.or_eq_true, decide_eq_true_eq]
    exact le_total _ _

theorem id_eq_of_sortsBefore {a b : Row V} (hab : sortsBefore direction column a b = true)
    (hba : sortsBefore direction column b a = true) : a.id = b.id := by
  cases direction with
  | asc =>
    simp only [sortsBefore, decide_eq_true_eq] at hab hba
    exact id_eq_of_sortKey_eq (le_antisymm hab hba)
  | desc =>
    simp only [sortsBefore, decide_eq_true_eq] at hab hba
    exact id_eq_of_sortKey_eq (le_antisymm hba hab)

theorem select_sorted (conditions : List (Row V → Bool)) (rows : List (Row V)) :
    (select q conditions rows).Pairwise fun a b => sortsBefore q.sortDirection q.sortColumn a b = true :=
  List.pairwise_mergeSort (sortsBefore_trans _ _) (sortsBefore_total _ _) _

theorem mem_select : row ∈ select q conditions rows ↔ row ∈ rows ∧ ∀ condition ∈ conditions, condition row = true := by
  rw [select, List.mem_mergeSort, List.mem_filter, List.all_eq_true]

theorem select_nodup (h : (rows.map Row.id).Nodup) : (select q conditions rows).Nodup := by
  rw [select, (List.mergeSort_perm _ _).nodup_iff]
  exact (h.of_map _).filter _

omit [LinearOrder V] in
theorem eq_of_id (h : (rows.map Row.id).Nodup) (hrow : row ∈ rows) (hrow' : row' ∈ rows) (hid : row.id = row'.id) :
    row = row' := List.inj_on_of_nodup_map h hrow hrow' hid

theorem select_append (h : (rows.map Row.id).Nodup) (keep : Row V → Bool) :
    select q (conditions ++ [keep]) rows = (select q conditions rows).filter keep := by
  refine List.Perm.eq_of_pairwise ?_ (select_sorted _ _) ((select_sorted _ _).filter _) ?_
  rotate_left
  · rw [select, select]
    refine (List.mergeSort_perm _ _).trans (.trans ?_ ((List.mergeSort_perm _ _).filter _).symm)
    rw [List.filter_filter]
    apply List.Perm.of_eq
    apply List.filter_congr
    intro row _
    rw [List.all_append, List.all_cons, List.all_nil, Bool.and_true, Bool.and_comm]
  · intro a b ha hb hab hba
    have ha' := (mem_select.mp ha).1
    have hb' := (mem_select.mp (List.mem_of_mem_filter hb)).1
    exact eq_of_id h ha' hb' (id_eq_of_sortsBefore hab hba)

/-- The value that a row is compared as when its cursor comes back. -/
def rowPlace (p : Packages V D) (q : ListParams V) (row : Row V) : Option V :=
  match rowCursor p q row with
  | .error _ => none
  | .ok cursor =>
    match decodeCursor p cursor with
    | .error _ => none
    | .ok data => data.sortValue.bind (p.operand q.sortColumn)

omit [LinearOrder V] in
theorem rowCursor_eq {cursor : Cursor V} (h : rowCursor p q row = .ok cursor) :
    cursor.id = row.id ∧ cursor.sortColumn = q.sortColumn := by
  rw [rowCursor] at h
  cases hvalue : row.get q.sortColumn with
  | none =>
    rw [hvalue] at h
    cases h
    exact ⟨rfl,rfl⟩
  | some v =>
    rw [hvalue, encodeCursor] at h
    cases hsort : validateSortValue p v with
    | none =>
      rw [hsort] at h
      cases h
    | some sortValue =>
      rw [hsort] at h
      cases h
      exact ⟨rfl,rfl⟩

omit [LinearOrder V] in
theorem decodeCursor_eq {cursor : Cursor V} {data : CursorData V D} (h : decodeCursor p cursor = .ok data) :
    data.id = cursor.id ∧ data.sortColumn = cursor.sortColumn := by
  rw [decodeCursor] at h
  split at h
  · cases h
    exact ⟨rfl,rfl⟩
  · cases h
    exact ⟨rfl,rfl⟩
  · cases h
    exact ⟨rfl,rfl⟩
  · cases h
    exact ⟨rfl,rfl⟩
  · cases h

theorem whereCursor_cases {cursor : Cursor V} {keep : Row V → Bool}
    (hrow : rowCursor p q row = .ok cursor) (h : whereCursor p q reverse (some cursor) = .ok keep) :
    (rowPlace p q row = none ∧ keep = fun _ => true) ∨ ∃ v, rowPlace p q row = some v ∧
      keep = cursorCondition q.sortDirection reverse q.sortColumn v row.id := by
  obtain ⟨hid,hcolumn⟩ := rowCursor_eq hrow
  rw [rowPlace, hrow]
  rw [whereCursor] at h
  simp only
  cases hdata : decodeCursor p cursor with
  | error e =>
    rw [hdata] at h
    cases h
  | ok data =>
    obtain ⟨hdataId,hdataColumn⟩ := decodeCursor_eq hdata
    rw [hdata] at h
    simp only
    have hsame : data.sortColumn = q.sortColumn := hdataColumn.trans hcolumn
    change (if data.sortColumn = q.sortColumn then _ else _) = _ at h
    rw [if_pos hsame] at h
    cases hvalue : data.sortValue with
    | none =>
      rw [hvalue] at h
      exact .inl ⟨rfl,(Except.ok.inj h).symm⟩
    | some sortValue =>
      rw [hvalue] at h
      simp only at h
      cases hoperand : p.operand q.sortColumn sortValue with
      | none =>
        rw [hoperand] at h
        cases h
      | some v =>
        rw [hoperand] at h
        refine .inr ⟨v,hoperand,?_⟩
        rw [← hid, ← hdataId]
        exact (Except.ok.inj h).symm

theorem whereCursor_of_rowPlace (h : rowPlace p q row = some v) (reverse : Bool) :
    ∃ cursor, rowCursor p q row = .ok cursor ∧ whereCursor p q reverse (some cursor) =
      .ok (cursorCondition q.sortDirection reverse q.sortColumn v row.id) := by
  rw [rowPlace] at h
  cases hrow : rowCursor p q row with
  | error e =>
    rw [hrow] at h
    cases h
  | ok cursor =>
    rw [hrow] at h
    simp only at h
    refine ⟨cursor,rfl,?_⟩
    obtain ⟨hid,hcolumn⟩ := rowCursor_eq hrow
    cases hdata : decodeCursor p cursor with
    | error e =>
      rw [hdata] at h
      cases h
    | ok data =>
      rw [hdata] at h
      obtain ⟨hdataId,hdataColumn⟩ := decodeCursor_eq hdata
      obtain ⟨sortValue,hvalue,hoperand⟩ := Option.bind_eq_some_iff.mp h
      have hsame : data.sortColumn = q.sortColumn := hdataColumn.trans hcolumn
      rw [whereCursor, hdata]
      change (if data.sortColumn = q.sortColumn then _ else _) = _
      rw [if_pos hsame, hvalue]
      simp only [hoperand]
      rw [hdataId, hid]
      rfl

omit [LinearOrder V] in
theorem value_of_rowPlace (h : rowPlace p q row = some v) : (row.get q.sortColumn).isSome := by
  cases hvalue : row.get q.sortColumn with
  | some u => rfl
  | none =>
    rw [rowPlace, rowCursor, hvalue] at h
    cases h

theorem cursorCondition_forward {cursorId : V} {a b : Row V}
    (ha : cursorCondition direction false column v cursorId a = true) (hb : (b.get column).isSome)
    (hab : sortsBefore direction column a b = true) :
    cursorCondition direction false column v cursorId b = true := by
  obtain ⟨ub,hub⟩ := Option.isSome_iff_exists.mp hb
  cases direction with
  | asc =>
    simp only [cursorCondition, isBehind, sortsBefore, decide_eq_true_eq] at ha hab ⊢
    cases hua : a.get column with
    | none =>
      rw [hua] at ha
      cases ha
    | some ua =>
      rw [hua] at ha
      simp only [decide_eq_true_eq] at ha
      rw [hub]
      simp only [decide_eq_true_eq]
      rw [sortKey_le_iff hua hub] at hab
      rcases ha with hlt | ⟨rfl,hid⟩
      · rcases hab with hlt' | ⟨rfl,-⟩
        · exact .inl (hlt.trans hlt')
        · exact .inl hlt
      · rcases hab with hlt' | ⟨rfl,hid'⟩
        · exact .inl hlt'
        · exact .inr ⟨rfl,hid.trans_le hid'⟩
  | desc =>
    simp only [cursorCondition, isBefore, sortsBefore, decide_eq_true_eq] at ha hab ⊢
    cases hua : a.get column with
    | none =>
      rw [hua] at ha
      cases ha
    | some ua =>
      rw [hua] at ha
      simp only [decide_eq_true_eq] at ha
      rw [hub]
      simp only [decide_eq_true_eq]
      rw [sortKey_le_iff hub hua] at hab
      rcases ha with hlt | ⟨rfl,hid⟩
      · rcases hab with hlt' | ⟨rfl,-⟩
        · exact .inl (hlt'.trans hlt)
        · exact .inl hlt
      · rcases hab with hlt' | ⟨rfl,hid'⟩
        · exact .inl hlt'
        · exact .inr ⟨rfl,hid'.trans_lt hid⟩

def SortDirection.flip : SortDirection → SortDirection
  | .asc => .desc
  | .desc => .asc

theorem cursorCondition_backward {cursorId : V} {a b : Row V}
    (hb : cursorCondition direction true column v cursorId b = true) (ha : (a.get column).isSome)
    (hab : sortsBefore direction column a b = true) :
    cursorCondition direction true column v cursorId a = true := by
  have hflip : ∀ c : Row V, cursorCondition direction true column v cursorId c =
      cursorCondition direction.flip false column v cursorId c := by
    intro c
    cases direction <;> rfl
  have hsort : sortsBefore direction.flip column b a = true := by
    cases direction <;> exact hab
  rw [hflip] at hb ⊢
  exact cursorCondition_forward hb ha hsort

theorem value_of_cursorCondition {cursorId : V}
    (h : cursorCondition direction reverse column v cursorId row = true) :
    (row.get column).isSome := by
  cases hvalue : row.get column with
  | some u => rfl
  | none =>
    cases direction <;> cases reverse <;>
      (simp only [cursorCondition, isBefore, isBehind] at h; rw [hvalue] at h; cases h)

def hasValue (q : ListParams V) (row : Row V) : Bool := (row.get q.sortColumn).isSome

theorem filter_forward
    (h : L.Pairwise fun a b => sortsBefore q.sortDirection q.sortColumn a b = true) (v cursorId : V) :
    L.filter (cursorCondition q.sortDirection false q.sortColumn v cursorId) <:+ L.filter (hasValue q) := by
  have hfilter : L.filter (cursorCondition q.sortDirection false q.sortColumn v cursorId) =
      (L.filter (hasValue q)).filter (cursorCondition q.sortDirection false q.sortColumn v cursorId) := by
    rw [List.filter_filter]
    apply List.filter_congr
    intro row _
    -- what is kept has a value
    by_cases hkept : cursorCondition q.sortDirection false q.sortColumn v cursorId row = true
    · rw [hkept, hasValue, value_of_cursorCondition hkept]
      rfl
    · rw [Bool.not_eq_true _ |>.mp hkept, Bool.false_and]
  rw [hfilter]
  apply filter_suffix (h.filter _)
  intro a b _ hb hab ha
  exact cursorCondition_forward ha (List.mem_filter.mp hb).2 hab

/-- The rows behind the cursor of a row, when the database takes the cursor and the page behind it can be
given cursors of its own. -/
def rest (p : Packages V D) (q : ListParams V) (L : List (Row V)) (row : Row V) : Option (List (Row V)) :=
  match rowCursor p q row with
  | .error _ => none
  | .ok cursor =>
    match whereCursor p q false (some cursor) with
    | .error _ => none
    | .ok keep =>
      match (L.filter keep).head? with
      | none => some (L.filter keep)
      | some first =>
        match rowCursor p q first with
        | .error _ => none
        | .ok _ => some (L.filter keep)

theorem rest_eq_some {zs : List (Row V)} (h : rest p q L row = some zs) :
    ∃ cursor keep, rowCursor p q row = .ok cursor ∧ whereCursor p q false (some cursor) = .ok keep ∧
      zs = L.filter keep ∧ ∀ first ∈ zs.head?, ∃ cursor', rowCursor p q first = .ok cursor' := by
  rw [rest] at h
  cases hrow : rowCursor p q row with
  | error e =>
    rw [hrow] at h
    cases h
  | ok cursor =>
    rw [hrow] at h
    simp only at h
    cases hwhere : whereCursor p q false (some cursor) with
    | error e =>
      rw [hwhere] at h
      cases h
    | ok keep =>
      rw [hwhere] at h
      simp only at h
      refine ⟨cursor,keep,rfl,hwhere,?_⟩
      cases hfirst : (L.filter keep).head? with
      | none =>
        rw [hfirst] at h
        cases h
        refine ⟨rfl,?_⟩
        intro first hmem
        rw [hfirst] at hmem
        cases hmem
      | some first =>
        rw [hfirst] at h
        simp only at h
        cases hcursor : rowCursor p q first with
        | error e =>
          rw [hcursor] at h
          cases h
        | ok cursor' =>
          rw [hcursor] at h
          cases h
          refine ⟨rfl,?_⟩
          intro first' hmem
          rw [hfirst] at hmem
          cases hmem
          exact ⟨cursor',hcursor⟩

theorem rest_of_cursor {cursor : Cursor V} {keep : Row V → Bool}
    (hrow : rowCursor p q row = .ok cursor)
    (hwhere : whereCursor p q false (some cursor) = .ok keep)
    (hfirst : ∀ first ∈ (L.filter keep).head?, ∃ cursor', rowCursor p q first = .ok cursor') :
    rest p q L row = some (L.filter keep) := by
  rw [rest, hrow]
  simp only [hwhere]
  cases hhead : (L.filter keep).head? with
  | none => rfl
  | some first =>
    obtain ⟨cursor',hcursor'⟩ := hfirst first hhead
    simp only [hcursor']

theorem cursors_rest (h : L.Pairwise fun a b => sortsBefore q.sortDirection q.sortColumn a b = true) :
    Cursors L (hasValue q) (rest p q L) := by
  intro row zs hrest
  obtain ⟨cursor,keep,hrow,hwhere,rfl,-⟩ := rest_eq_some hrest
  rcases whereCursor_cases hrow hwhere with ⟨-,rfl⟩ | ⟨v,-,rfl⟩
  · left
    exact List.filter_eq_self.mpr fun _ _ => rfl
  · exact .inr (filter_forward h v row.id)

/-- The cursor of a row falls between the row and the next one, and there is a cursor of the next one. -/
def Cuts (p : Packages V D) (q : ListParams V) (row next : Row V) : Prop :=
  ∃ v, rowPlace p q row = some v ∧
    cursorCondition q.sortDirection false q.sortColumn v row.id row = false ∧
    cursorCondition q.sortDirection false q.sortColumn v row.id next = true ∧
    ∃ cursor, rowCursor p q next = .ok cursor

/-- A cursor cuts the rows at a place exactly when it falls between the two rows there. -/
theorem rest_eq_drop_iff
    (h : L.Pairwise fun a b => sortsBefore q.sortDirection q.sortColumn a b = true) (hL : L.Nodup)
    {m : ℕ} {next : Row V} (hm : 1 ≤ m) (hrow : L[m-1]? = some row) (hnext : L[m]? = some next)
    (hvalues : ∀ x ∈ L.drop m, hasValue q x = true) :
    rest p q L row = some (L.drop m) ↔ Cuts p q row next := by
  have hdrop : L.drop m = next :: L.drop (m+1) := by
    obtain ⟨hlt,rfl⟩ := List.getElem?_eq_some_iff.mp hnext
    exact List.drop_eq_getElem_cons hlt
  have hsplit : L = L.take m ++ L.drop m := (List.take_append_drop m L).symm
  have hbound : m-1 < m := by omega
  have hrowTake : row ∈ L.take m := by
    apply List.mem_of_getElem?
    rw [List.getElem?_take_of_lt hbound]
    exact hrow
  constructor
  · intro hrest
    obtain ⟨cursor,keep,hcursor,hwhere,hkeep,hfirst⟩ := rest_eq_some hrest
    have hnextKept : next ∈ L.filter keep := by
      rw [← hkeep, hdrop]
      exact List.mem_cons_self
    have hrowDropped : keep row = false := by
      -- a row that was kept would stand on both sides of the cut
      by_contra hkept
      have hmem : row ∈ L.drop m := by
        rw [hkeep]
        exact List.mem_filter.mpr ⟨List.mem_of_getElem? hrow,by simpa using hkept⟩
      rw [hsplit] at hL
      exact (List.nodup_append.mp hL).2.2 row hrowTake row hmem rfl
    rcases whereCursor_cases hcursor hwhere with ⟨-,rfl⟩ | ⟨v,hplace,rfl⟩
    · cases hrowDropped
    · refine ⟨v,hplace,hrowDropped,(List.mem_filter.mp hnextKept).2,?_⟩
      apply hfirst next
      rw [hdrop]
      rfl
  · rintro ⟨v,hplace,hrowDropped,hnextKept,hcursor⟩
    obtain ⟨cursor,hrowCursor,hwhere⟩ := whereCursor_of_rowPlace hplace false
    have hbefore : (L.take m).filter (cursorCondition q.sortDirection false q.sortColumn v row.id) = [] := by
      rw [List.filter_eq_nil_iff]
      intro x hx hkept
      obtain ⟨i,hi⟩ := List.getElem?_of_mem hx
      have hilt : i < m := by
        have := (List.getElem?_eq_some_iff.mp hi).1
        rw [List.length_take] at this
        omega
      rw [List.getElem?_take_of_lt hilt] at hi
      have hkeptRow : cursorCondition q.sortDirection false q.sortColumn v row.id row = true := by
        by_cases hlast : i = m-1
        · subst hlast
          obtain rfl := Option.some.inj (hi.symm.trans hrow)
          exact hkept
        · obtain ⟨hi₁,rfl⟩ := List.getElem?_eq_some_iff.mp hi
          obtain ⟨hi₂,rfl⟩ := List.getElem?_eq_some_iff.mp hrow
          exact cursorCondition_forward hkept (value_of_rowPlace hplace)
            (List.pairwise_iff_getElem.mp h i (m-1) hi₁ hi₂ (by omega))
      rw [hrowDropped] at hkeptRow
      cases hkeptRow
    have hbehind : (L.drop m).filter (cursorCondition q.sortDirection false q.sortColumn v row.id) = L.drop m := by
      rw [List.filter_eq_self]
      intro x hx
      rw [hdrop] at hx
      rcases List.mem_cons.mp hx with rfl | hx'
      · exact hnextKept
      · have hsorted : (L.drop m).Pairwise fun a b => sortsBefore q.sortDirection q.sortColumn a b = true := h.drop
        rw [hdrop] at hsorted
        exact cursorCondition_forward hnextKept (hvalues x (hdrop ▸ hx)) ((List.pairwise_cons.mp hsorted).1 x hx')
    have hkeep : L.filter (cursorCondition q.sortDirection false q.sortColumn v row.id) = L.drop m := by
      conv_lhs => rw [hsplit]
      rw [List.filter_append, hbefore, hbehind, List.nil_append]
    rw [rest_of_cursor hrowCursor hwhere, hkeep]
    rw [hkeep, hdrop]
    intro first hmem
    cases hmem
    exact hcursor

/-- The pages that `next_cursor` leads through, to one without more rows. -/
inductive Forward (fetch : Option (Cursor V) → Except PageError (CursorPaginatedResponse V)) :
    Option (Cursor V) → List (CursorPaginatedResponse V) → Prop
  | last {cursor : Option (Cursor V)} {r : CursorPaginatedResponse V} : fetch cursor = .ok r →
      r.hasMore = false → Forward fetch cursor [r]
  | more {cursor : Option (Cursor V)} {next : Cursor V} {r : CursorPaginatedResponse V}
      {rs : List (CursorPaginatedResponse V)} : fetch cursor = .ok r → r.hasMore = true →
      r.nextCursor = some next → Forward fetch (some next) rs → Forward fetch cursor (r :: rs)

/-- Requests with one filter, sort and page size. -/
def fetch (p : Packages V D) (table : Table) (q : ListParams V) (rows : List (Row V)) (limit : ℕ) (reverse : Bool)
    (cursor : Option (Cursor V)) : Except PageError (CursorPaginatedResponse V) :=
  listRowsPaginated p table q rows ⟨limit,cursor,reverse⟩

theorem fetch_eq (hconditions : whereConditions p table q = .ok conditions)
    (hcolumn : checkSortColumn table q = .ok ()) (hid : (rows.map Row.id).Nodup)
    {cursor : Option (Cursor V)} {keep : Row V → Bool}
    (hkeep : whereCursor p q reverse cursor = .ok keep) :
    fetch p table q rows limit reverse cursor =
      respond p q ⟨limit,cursor,reverse⟩ (((select q conditions rows).filter keep).take (limit+1)) := by
  rw [fetch, listRowsPaginated, hconditions]
  simp only [bind, Except.bind, hcolumn, hkeep]
  rw [select_append hid]

theorem fetch_first (hconditions : whereConditions p table q = .ok conditions)
    (hcolumn : checkSortColumn table q = .ok ()) (hid : (rows.map Row.id).Nodup) (limit : ℕ) :
    fetch p table q rows limit false none =
      respond p q ⟨limit,none,false⟩ ((select q conditions rows).take (limit+1)) := by
  have hall : (select q conditions rows).filter (fun _ => true) = select q conditions rows :=
    List.filter_eq_self.mpr fun _ _ => rfl
  rw [fetch_eq hconditions hcolumn hid rfl, hall]

theorem whereCursor_of_fetch {cursor : Option (Cursor V)} {r : CursorPaginatedResponse V}
    (h : fetch p table q rows limit reverse cursor = .ok r) :
    ∃ keep, whereCursor p q reverse cursor = .ok keep := by
  rw [fetch, listRowsPaginated] at h
  cases hkeep : whereCursor p q reverse cursor with
  | ok keep => exact ⟨keep,rfl⟩
  | error e =>
    simp only [bind, Except.bind, hkeep] at h
    split at h
    · cases h
    · split at h <;> cases h

omit [LinearOrder V] in
theorem respond_eq (params : CursorPaginationParams V) (ys : List (Row V)) :
    respond p q params (ys.take (params.limit+1)) =
      (nextCursorOf p q (decide (params.limit < ys.length)) (ys.take params.limit)).bind fun next =>
        (prevCursorOf p q params.cursor (ys.take params.limit)).bind fun prev =>
          .ok (if params.reverse then
              ⟨(ys.take params.limit).reverse,prev,next,decide (params.limit < ys.length),params.cursor.isSome⟩
            else ⟨ys.take params.limit,next,prev,decide (params.limit < ys.length),params.cursor.isSome⟩) := by
  have hmore : decide (params.limit < (ys.take (params.limit+1)).length) = decide (params.limit < ys.length) := by
    rw [List.length_take]
    apply decide_eq_decide.mpr
    omega
  have hrows : (if decide (params.limit < ys.length) = true then (ys.take (params.limit+1)).take params.limit
      else ys.take (params.limit+1)) = ys.take params.limit := by
    rw [List.take_take]
    split_ifs with hlt
    · congr 1
      omega
    · have hle : ys.length ≤ params.limit := by simpa using hlt
      rw [List.take_of_length_le (by omega), List.take_of_length_le hle]
  rw [respond]
  simp only [hmore, hrows, bind, Except.bind, pure, Except.pure]
  split
  · rfl
  · split
    · rfl
    · split_ifs <;> rfl

omit [LinearOrder V] in
theorem respond_ok_iff (params : CursorPaginationParams V) {r : CursorPaginatedResponse V} :
    respond p q params (ys.take (params.limit+1)) = .ok r ↔ ∃ next prev,
      nextCursorOf p q (decide (params.limit < ys.length)) (ys.take params.limit) = .ok next ∧
      prevCursorOf p q params.cursor (ys.take params.limit) = .ok prev ∧
      (if params.reverse then
          ⟨(ys.take params.limit).reverse,prev,next,decide (params.limit < ys.length),params.cursor.isSome⟩
        else ⟨ys.take params.limit,next,prev,decide (params.limit < ys.length),params.cursor.isSome⟩) = r := by
  rw [respond_eq]
  cases hnext : nextCursorOf p q (decide (params.limit < ys.length)) (ys.take params.limit) with
  | error e =>
    refine iff_of_false (fun h => by cases h) ?_
    rintro ⟨_,_,h,-⟩
    cases h
  | ok next =>
    cases hprev : prevCursorOf p q params.cursor (ys.take params.limit) with
    | error e =>
      refine iff_of_false (fun h => by cases h) ?_
      rintro ⟨_,_,-,h,-⟩
      cases h
    | ok prev =>
      simp only [Except.bind]
      constructor
      · intro h
        exact ⟨next,prev,rfl,rfl,Except.ok.inj h⟩
      · rintro ⟨next',prev',hnext',hprev',rfl⟩
        cases hnext'
        cases hprev'
        rfl

omit [LinearOrder V] in
theorem nextCursorOf_more {row : Row V} (hlimit : 1 ≤ limit) (h : limit < ys.length)
    (hrow : ys[limit-1]? = some row) :
    nextCursorOf p q (decide (limit < ys.length)) (ys.take limit) = (rowCursor p q row).map some := by
  have hlast : (ys.take limit).getLast? = some row := by
    rw [List.getLast?_eq_getElem?, List.length_take, Nat.min_eq_left h.le,
      List.getElem?_take_of_lt (Nat.sub_lt hlimit Nat.one_pos), hrow]
  unfold nextCursorOf
  rw [decide_eq_true h, hlast]

omit [LinearOrder V] in
theorem nextCursorOf_last (h : ¬ limit < ys.length) :
    nextCursorOf p q (decide (limit < ys.length)) (ys.take limit) = .ok none := by
  unfold nextCursorOf
  rw [decide_eq_false h]

omit [LinearOrder V] in
theorem head?_take (hlimit : 1 ≤ limit) (ys : List (Row V)) : (ys.take limit).head? = ys.head? := by
  cases ys with
  | nil => rw [List.take_nil]
  | cons y ys =>
    obtain ⟨m,rfl⟩ : ∃ m, limit = m+1 := ⟨limit-1,by omega⟩
    rfl

omit [LinearOrder V] in
theorem prevCursorOf_ok_iff (hlimit : 1 ≤ limit) {cursor : Cursor V} :
    (∃ prev, prevCursorOf p q (some cursor) (ys.take limit) = .ok prev) ↔
      ∀ first ∈ ys.head?, ∃ cursor', rowCursor p q first = .ok cursor' := by
  unfold prevCursorOf
  rw [head?_take hlimit]
  cases ys.head? with
  | none =>
    refine iff_of_true ⟨none,rfl⟩ ?_
    intro first h
    cases h
  | some first =>
    simp only
    cases hrow : rowCursor p q first with
    | error e =>
      refine iff_of_false (fun ⟨_,h⟩ => by cases h) ?_
      intro h
      obtain ⟨cursor',hcursor'⟩ := h first rfl
      rw [hrow] at hcursor'
      cases hcursor'
    | ok cursor' =>
      refine iff_of_true ⟨some cursor',rfl⟩ ?_
      intro first' h
      cases h
      exact ⟨cursor',hrow⟩

section Enumeration
variable (hconditions : whereConditions p table q = .ok conditions) (hcolumn : checkSortColumn table q = .ok ())
  (hid : (rows.map Row.id).Nodup) {limit : ℕ} (hlimit : 1 ≤ limit)
include hconditions hcolumn hid hlimit

theorem pages_of_forward {cursor : Option (Cursor V)} {rs : List (CursorPaginatedResponse V)}
    (h : Forward (fetch p table q rows limit false) cursor rs)
    (hfetch : fetch p table q rows limit false cursor = respond p q ⟨limit,cursor,false⟩ (ys.take (limit+1))) :
    Pages limit (rest p q (select q conditions rows)) ys (rs.map CursorPaginatedResponse.items) := by
  induction h generalizing ys with
  | last hr hmore =>
    rw [hfetch] at hr
    obtain ⟨next,prev,hnext,hprev,rfl⟩ := (respond_ok_iff _).mp hr
    have hlength : ys.length ≤ limit := Nat.not_lt.mp (of_decide_eq_false hmore)
    have hitems : ys.take limit = ys := List.take_of_length_le hlength
    change Pages limit _ ys [ys.take limit]
    rw [hitems]
    exact .last hlength
  | @more cursor next r rs hr hmore hnext hrest ih =>
    rw [hfetch] at hr
    obtain ⟨next',prev,hnext',hprev,rfl⟩ := (respond_ok_iff _).mp hr
    have hlength : limit < ys.length := of_decide_eq_true hmore
    obtain ⟨row,hrow⟩ : ∃ row, ys[limit-1]? = some row := ⟨_,List.getElem?_eq_getElem (by omega)⟩
    obtain rfl : next' = some next := hnext
    have hcursor : rowCursor p q row = .ok next := by
      rw [nextCursorOf_more hlimit hlength hrow] at hnext'
      cases hrowCursor : rowCursor p q row with
      | error e =>
        rw [hrowCursor] at hnext'
        cases hnext'
      | ok cursor' =>
        rw [hrowCursor] at hnext'
        exact congrArg Except.ok (Option.some.inj (Except.ok.inj hnext'))
    obtain ⟨r',hr'⟩ : ∃ r', fetch p table q rows limit false (some next) = .ok r' := by
      cases hrest with
      | last hr' => exact ⟨_,hr'⟩
      | more hr' => exact ⟨_,hr'⟩
    obtain ⟨keep,hkeep⟩ := whereCursor_of_fetch hr'
    have hbehind : fetch p table q rows limit false (some next) =
      respond p q ⟨limit,some next,false⟩ (((select q conditions rows).filter keep).take (limit+1)) :=
      fetch_eq hconditions hcolumn hid hkeep
    rw [hbehind] at hr'
    obtain ⟨-,prev',-,hprev',-⟩ := (respond_ok_iff _).mp hr'
    have hfirst := (prevCursorOf_ok_iff hlimit).mp ⟨prev',hprev'⟩
    exact .more hlength hrow (rest_of_cursor hcursor hkeep hfirst) (ih hbehind)

theorem forward_of_pages {pages : List (List (Row V))}
    (h : Pages limit (rest p q (select q conditions rows)) ys pages) {cursor : Option (Cursor V)}
    (hfetch : fetch p table q rows limit false cursor = respond p q ⟨limit,cursor,false⟩ (ys.take (limit+1)))
    (hprev : ∃ prev, prevCursorOf p q cursor (ys.take limit) = .ok prev) :
    ∃ rs, Forward (fetch p table q rows limit false) cursor rs ∧ rs.map CursorPaginatedResponse.items = pages := by
  induction h generalizing cursor with
  | @last ys hlength =>
    obtain ⟨prev,hprev⟩ := hprev
    have hlast : ¬ limit < ys.length := by omega
    have hr := (respond_ok_iff ⟨limit,cursor,false⟩).mpr ⟨none,prev,nextCursorOf_last hlast,hprev,rfl⟩
    refine ⟨_,.last (hfetch.trans hr) (decide_eq_false hlast),?_⟩
    have hitems : ys.take limit = ys := List.take_of_length_le hlength
    change [ys.take limit] = [ys]
    rw [hitems]
  | @more ys zs row pages hlength hrow hrest hpages ih =>
    obtain ⟨prev,hprev⟩ := hprev
    obtain ⟨next,keep,hcursor,hkeep,rfl,hfirst⟩ := rest_eq_some hrest
    have hnext : nextCursorOf p q (decide (limit < ys.length)) (ys.take limit) = .ok (some next) := by
      rw [nextCursorOf_more hlimit hlength hrow, hcursor]
      rfl
    have hr := (respond_ok_iff ⟨limit,cursor,false⟩).mpr ⟨some next,prev,hnext,hprev,rfl⟩
    obtain ⟨rs,hforward,hitems⟩ := ih (fetch_eq hconditions hcolumn hid hkeep)
      ((prevCursorOf_ok_iff hlimit).mpr hfirst)
    refine ⟨_ :: rs,.more (hfetch.trans hr) (decide_eq_true hlength) rfl hforward,?_⟩
    rw [List.map_cons, hitems]
    rfl

end Enumeration

/-- Following `next_cursor` from the first page gives each row that matches once, in the declared order. -/
def ListsMatching (p : Packages V D) (table : Table) (q : ListParams V) (conditions : List (Row V → Bool))
    (rows : List (Row V)) (limit : ℕ) : Prop :=
  ∃ rs, Forward (fetch p table q rows limit false) none rs ∧
    (rs.map CursorPaginatedResponse.items).flatten.Perm
      (rows.filter fun row => conditions.all fun condition => condition row) ∧
    (rs.map CursorPaginatedResponse.items).flatten.Pairwise
      fun a b => sortsBefore q.sortDirection q.sortColumn a b = true

/-- No row behind the first page is NULL in the sort column, and wherever a page ends the cursor falls between
its last row and the next one. -/
def Separates (p : Packages V D) (q : ListParams V) (limit : ℕ) (L : List (Row V)) : Prop :=
  (∀ row ∈ L.drop limit, hasValue q row = true) ∧ ∀ k, 1 ≤ k → k*limit < L.length →
    ∃ row next, L[k*limit-1]? = some row ∧ L[k*limit]? = some next ∧ Cuts p q row next

theorem borders_iff_separates (hlimit : 1 ≤ limit)
    (h : L.Pairwise fun a b => sortsBefore q.sortDirection q.sortColumn a b = true) (hL : L.Nodup) :
    Borders limit L (hasValue q) (rest p q L) ↔ Separates p q limit L := by
  apply and_congr_right
  intro hvalues
  refine forall_congr' fun k => imp_congr_right fun hk => imp_congr_right fun hlt => ?_
  have hpos : limit ≤ k*limit := Nat.le_mul_of_pos_left limit hk
  obtain ⟨next,hnext⟩ : ∃ next, L[k*limit]? = some next := ⟨_,List.getElem?_eq_getElem hlt⟩
  have hbehind : ∀ x ∈ L.drop (k*limit), hasValue q x = true := by
    intro x hx
    apply hvalues x
    have hsuffix : L.drop (k*limit) <:+ L.drop limit := List.drop_suffix_drop_left L hpos
    exact hsuffix.subset hx
  constructor
  · rintro ⟨row,hrow,hrest⟩
    exact ⟨row,next,hrow,hnext,(rest_eq_drop_iff h hL (by omega) hrow hnext hbehind).mp hrest⟩
  · rintro ⟨row,next',hrow,hnext',hcuts⟩
    exact ⟨row,hrow,(rest_eq_drop_iff h hL (by omega) hrow hnext' hbehind).mpr hcuts⟩

omit [LinearOrder V] in
theorem prevCursorOf_first (p : Packages V D) (q : ListParams V) (ys : List (Row V)) :
    ∃ prev, prevCursorOf p q none ys = .ok prev := ⟨none,rfl⟩

theorem flatten_eq_select (hid : (rows.map Row.id).Nodup) {xs : List (Row V)}
    (hperm : xs.Perm (rows.filter fun row => conditions.all fun condition => condition row))
    (hsorted : xs.Pairwise fun a b => sortsBefore q.sortDirection q.sortColumn a b = true) :
    xs = select q conditions rows := by
  refine List.Perm.eq_of_pairwise ?_ hsorted (select_sorted _ _) (hperm.trans (List.mergeSort_perm _ _).symm)
  intro a b ha hb hab hba
  have ha' := (List.mem_filter.mp (hperm.subset ha)).1
  exact eq_of_id hid ha' (mem_select.mp hb).1 (id_eq_of_sortsBefore hab hba)

/-- Rows are listed page by page without loss or repetition exactly when the cursors separate them where the
pages end. -/
theorem listsMatching_iff (hconditions : whereConditions p table q = .ok conditions)
    (hcolumn : checkSortColumn table q = .ok ()) (hid : (rows.map Row.id).Nodup) {limit : ℕ} (hlimit : 1 ≤ limit) :
    ListsMatching p table q conditions rows limit ↔ Separates p q limit (select q conditions rows) := by
  have hsorted := select_sorted (q := q) conditions rows
  have hnodup : (select q conditions rows).Nodup := select_nodup hid
  rw [← borders_iff_separates hlimit hsorted hnodup,
    ← pages_iff_borders (cursors_rest hsorted) hlimit hnodup]
  have hfirst := fetch_first hconditions hcolumn hid limit
  constructor
  · rintro ⟨rs,hforward,hperm,hpairwise⟩
    exact ⟨_,pages_of_forward hconditions hcolumn hid hlimit hforward hfirst,
      flatten_eq_select hid hperm hpairwise⟩
  · rintro ⟨pages,hpages,hflat⟩
    obtain ⟨rs,hforward,rfl⟩ := forward_of_pages hconditions hcolumn hid hlimit hpages hfirst
      (prevCursorOf_first p q _)
    refine ⟨rs,hforward,?_,?_⟩
    · rw [hflat]
      exact List.mergeSort_perm _ _
    · rw [hflat]
      exact hsorted

def Survives (p : Packages V D) (q : ListParams V) (row : Row V) : Prop :=
  ∀ v, row.get q.sortColumn = some v → rowPlace p q row = some v

omit [LinearOrder V] in
theorem survives_int {n : ℤ} (hvalue : row.get q.sortColumn = some v) (htext : p.text v = none)
    (hvalidate : p.validate v = some (.int n)) (hoperand : p.operand q.sortColumn (.int n) = some v) :
    Survives p q row := by
  intro u hu
  obtain rfl := Option.some.inj (hvalue.symm.trans hu)
  rw [rowPlace, rowCursor, hvalue, encodeCursor, validateSortValue, htext]
  simp only [hvalidate, Option.map_some]
  exact hoperand

theorem cuts_of_survives {u : V} (hrow : row.get q.sortColumn = some v)
    (hnext : row'.get q.sortColumn = some u) (hsurvives : Survives p q row)
    (hsurvives' : Survives p q row') (hid : row.id ≠ row'.id)
    (hsorts : sortsBefore q.sortDirection q.sortColumn row row' = true) : Cuts p q row row' := by
  obtain ⟨cursor,hcursor,-⟩ := whereCursor_of_rowPlace (hsurvives' u hnext) false
  refine ⟨v,hsurvives v hrow,?_,?_,cursor,hcursor⟩
  · cases q.sortDirection <;> simp [cursorCondition, isBehind, isBefore, hrow]
  · cases hdirection : q.sortDirection with
    | asc =>
      rw [hdirection] at hsorts
      simp only [sortsBefore, decide_eq_true_eq] at hsorts
      rw [sortKey_le_iff hrow hnext] at hsorts
      simp only [cursorCondition, isBehind]
      rw [hnext]
      simp only [decide_eq_true_eq]
      rcases hsorts with hlt | ⟨rfl,hle⟩
      · exact .inl hlt
      · exact .inr ⟨rfl,lt_of_le_of_ne hle hid⟩
    | desc =>
      rw [hdirection] at hsorts
      simp only [sortsBefore, decide_eq_true_eq] at hsorts
      rw [sortKey_le_iff hnext hrow] at hsorts
      simp only [cursorCondition, isBefore]
      rw [hnext]
      simp only [decide_eq_true_eq]
      rcases hsorts with hlt | ⟨rfl,hle⟩
      · exact .inl hlt
      · exact .inr ⟨rfl,lt_of_le_of_ne hle hid.symm⟩

/-- With values that survive, only a NULL at the end of the first page or behind it does harm. -/
theorem separates_iff_of_survives (hlimit : 1 ≤ limit)
    (h : L.Pairwise fun a b => sortsBefore q.sortDirection q.sortColumn a b = true)
    (hid : (L.map Row.id).Nodup) (hsurvives : ∀ row ∈ L, Survives p q row) :
    Separates p q limit L ↔ L.length ≤ limit ∨ ∀ row ∈ L.drop (limit-1), hasValue q row = true := by
  constructor
  · intro hseparates
    by_cases hlength : L.length ≤ limit
    · exact .inl hlength
    right
    obtain ⟨row,next,hrow,hnext,v,hplace,-⟩ := hseparates.2 1 le_rfl (by omega)
    rw [Nat.one_mul] at hrow
    obtain ⟨hlt,rfl⟩ := List.getElem?_eq_some_iff.mp hrow
    have hdrop : L.drop (limit-1) = L[limit-1] :: L.drop limit := by
      have hcons := List.drop_eq_getElem_cons hlt
      rwa [Nat.sub_add_cancel hlimit] at hcons
    intro x hx
    rw [hdrop] at hx
    rcases List.mem_cons.mp hx with rfl | hx
    · exact value_of_rowPlace hplace
    · exact hseparates.1 x hx
  · intro hor
    have hdrop : ∀ x ∈ L.drop limit, hasValue q x = true := by
      rcases hor with hlength | hvalues
      · intro x hx
        rw [List.drop_eq_nil_iff.mpr hlength] at hx
        cases hx
      · intro x hx
        have hsuffix : L.drop limit <:+ L.drop (limit-1) := List.drop_suffix_drop_left L (Nat.sub_le limit 1)
        exact hvalues x (hsuffix.subset hx)
    refine ⟨hdrop,?_⟩
    intro k hk hlt
    have hpos : limit ≤ k*limit := Nat.le_mul_of_pos_left limit hk
    have hvalues : ∀ i (hi : i < L.length), limit-1 ≤ i → ∃ v, L[i].get q.sortColumn = some v := by
      intro i hi hle
      rcases hor with hlength | hvalues
      · omega
      · apply Option.isSome_iff_exists.mp
        apply hvalues
        apply List.mem_of_getElem? (i := i-(limit-1))
        rw [List.getElem?_drop, Nat.add_sub_cancel' hle]
        exact List.getElem?_eq_getElem hi
    have hlt' : k*limit-1 < L.length := by omega
    obtain ⟨v,hv⟩ := hvalues (k*limit-1) hlt' (by omega)
    obtain ⟨u,hu⟩ := hvalues (k*limit) hlt (by omega)
    refine ⟨L[k*limit-1],L[k*limit],List.getElem?_eq_getElem hlt',List.getElem?_eq_getElem hlt,?_⟩
    apply cuts_of_survives hv hu (hsurvives _ (List.getElem_mem hlt')) (hsurvives _ (List.getElem_mem hlt))
    · intro heq
      have hsame := eq_of_id hid (List.getElem_mem hlt') (List.getElem_mem hlt) heq
      have hindex := (List.Nodup.of_map _ hid).getElem_inj_iff.mp hsame
      omega
    · exact List.pairwise_iff_getElem.mp h _ _ hlt' hlt (by omega)

omit [LinearOrder V] in
theorem not_forward_of_loop {request : Option (Cursor V) → Except PageError (CursorPaginatedResponse V)}
    {cursor : Cursor V} {r : CursorPaginatedResponse V} (hr : request (some cursor) = .ok r) (hmore : r.hasMore = true)
    (hnext : r.nextCursor = some cursor) (rs : List (CursorPaginatedResponse V)) :
    ¬ Forward request (some cursor) rs := by
  intro h
  generalize hfrom : some cursor = from' at h
  induction h with
  | last hr' hmore' =>
    subst hfrom
    obtain rfl := Except.ok.inj (hr.symm.trans hr')
    rw [hmore] at hmore'
    cases hmore'
  | more hr' _ hnext' _ ih =>
    subst hfrom
    obtain rfl := Except.ok.inj (hr.symm.trans hr')
    exact ih (hnext.symm.trans hnext')

/-! A table of integers. -/

def intPackages : Packages ℤ Unit where
  fromIsoformat := fun _ => none
  isoformat := fun _ => ""
  text := fun _ => none
  validate := fun n => some (.int n)
  operand := fun _ sortValue =>
    match sortValue with
    | .int n => some n
    | _ => none
  ilike := fun _ _ => false

def scoreTable : Table := ⟨"scores",[⟨"score",.integer,none⟩]⟩

def byScore (direction : SortDirection) : ListParams ℤ :=
  ⟨none,none,none,none,none,some "score",some direction⟩

def scoreRow (id : ℤ) (score : Option ℤ) : Row ℤ := ⟨id,fun column => if column = "score" then score else none⟩

theorem survives_score (direction : SortDirection) (row : Row ℤ) : Survives intPackages (byScore direction) row :=
  fun v hv => survives_int hv rfl rfl rfl v hv

def tiedScores : List (Row ℤ) := [scoreRow 1 (some 4),scoreRow 2 (some 4),scoreRow 3 (some 7)]

theorem tiedScores_ids : (tiedScores.map Row.id).Nodup := by decide

theorem tiedScores_values : ∀ row ∈ tiedScores, hasValue (byScore .asc) row = true := by decide

theorem listsMatching_scores : ListsMatching intPackages scoreTable (byScore .asc) [] tiedScores 2 := by
  have hperm := List.mergeSort_perm
    (tiedScores.filter fun row => ([] : List (Row ℤ → Bool)).all fun condition => condition row)
    (sortsBefore (byScore .asc).sortDirection (byScore .asc).sortColumn)
  have hid : ((select (byScore .asc) [] tiedScores).map Row.id).Nodup := (hperm.map Row.id).nodup_iff.mpr tiedScores_ids
  apply (listsMatching_iff rfl rfl tiedScores_ids (by decide)).mpr
  apply (separates_iff_of_survives (by decide) (select_sorted _ _) hid fun row _ => survives_score _ row).mpr
  right
  intro row hrow
  exact tiedScores_values row (mem_select.mp (List.mem_of_mem_drop hrow)).1

/-- A row without a score comes first, and its cursor says nothing. -/
def unscored : List (Row ℤ) := [scoreRow 1 none,scoreRow 2 (some 5)]

theorem unscored_not_listed : ¬ ListsMatching intPackages scoreTable (byScore .desc) [] unscored 1 := by
  have hid : (unscored.map Row.id).Nodup := by decide
  have hsorted : unscored.Pairwise fun a b => sortsBefore .desc "score" a b = true := by
    rw [unscored, List.pairwise_cons]
    refine ⟨?_,List.pairwise_singleton _ _⟩
    intro b hb
    obtain rfl := List.mem_singleton.mp hb
    rw [sortsBefore, decide_eq_true_eq]
    exact Prod.Lex.toLex_le_toLex.mpr (.inl (WithTop.coe_lt_top 5))
  have hconditions : whereConditions intPackages scoreTable (byScore .desc) = .ok [] := rfl
  have hselect : select (byScore .desc) [] unscored = unscored := List.mergeSort_of_pairwise hsorted
  have hfirst : fetch intPackages scoreTable (byScore .desc) unscored 1 false none =
      .ok ⟨[scoreRow 1 none],some ⟨1,"score",.none⟩,none,true,false⟩ := by
    rw [fetch_first hconditions rfl hid, hselect]
    rfl
  have hsecond : fetch intPackages scoreTable (byScore .desc) unscored 1 false (some ⟨1,"score",.none⟩) =
      .ok ⟨[scoreRow 1 none],some ⟨1,"score",.none⟩,some ⟨1,"score",.none⟩,true,true⟩ := by
    rw [fetch_eq hconditions rfl hid rfl, hselect]
    rfl
  rintro ⟨rs,hforward,-⟩
  cases hforward with
  | last hr hmore =>
    obtain rfl := Except.ok.inj (hfirst.symm.trans hr)
    cases hmore
  | more hr _ hnext hrest =>
    obtain rfl := Except.ok.inj (hfirst.symm.trans hr)
    cases hnext
    exact not_forward_of_loop hsecond rfl rfl _ hrest

end Tables
end Allama
