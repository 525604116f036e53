import Mathlib.Data.List.Chain
import Allama.RowEnumeration

/-! Going back through the rows of a table. A reverse request flips the comparison with its cursor, but not the
order: it starts from the first row of the table, and reverses what it finds there. -/
namespace Allama
namespace Tables
variable {V D : Type} [LinearOrder V] {p : Packages V D} {table : Table} {q : ListParams V}
  {rows : List (Row V)} {conditions : List (Row V → Bool)}

/-- From a page the previous cursor leads back to the page before, and the next cursor of that to the page. -/
def StepsBack (p : Packages V D) (table : Table) (q : ListParams V) (rows : List (Row V)) (limit : ℕ)
    (before page : CursorPaginatedResponse V) : Prop :=
  ∃ cursor r, page.prevCursor = some cursor ∧ fetch p table q rows limit true (some cursor) = .ok r ∧
    r.items = before.items ∧
    ∃ next r', r.nextCursor = some next ∧ fetch p table q rows limit false (some next) = .ok r' ∧
      r'.items = page.items

/-- The forward enumeration ends, and every page of it leads back to the one before. -/
def LeadsBack (p : Packages V D) (table : Table) (q : ListParams V) (rows : List (Row V)) (limit : ℕ) : Prop :=
  ∃ rs, Forward (fetch p table q rows limit false) none rs ∧ rs.IsChain (StepsBack p table q rows limit)

/-- The cursor of the first row has one row behind it, and that of this row has the first before it. -/
def OnlyTwo (p : Packages V D) (q : ListParams V) (L : List (Row V)) : Prop :=
  ∃ first second next prev keep keep', L.head? = some first ∧ rowCursor p q first = .ok next ∧
    whereCursor p q false (some next) = .ok keep ∧ L.filter keep = [second] ∧
    rowCursor p q second = .ok prev ∧ whereCursor p q true (some prev) = .ok keep' ∧ keep' first = true

theorem limit_eq_one {L ys : List (Row V)} {limit : ℕ} (hlimit : 1 ≤ limit) (hid : (L.map Row.id).Nodup)
    (h : L.Pairwise fun a b => sortsBefore q.sortDirection q.sortColumn a b = true)
    (hys : ys.Pairwise fun a b => sortsBefore q.sortDirection q.sortColumn a b = true) (hlt : limit < L.length)
    (heq : (ys.take limit).reverse = L.take limit) : limit = 1 := by
  by_contra hone
  obtain ⟨m,rfl⟩ : ∃ m, limit = m+2 := ⟨limit-2,by omega⟩
  match L, hlt with
  | a :: b :: L, _ =>
    have htake := hys.take (i := m+2)
    rw [← List.pairwise_reverse, heq] at htake
    have hba : sortsBefore q.sortDirection q.sortColumn b a = true :=
      (List.pairwise_cons.mp htake).1 b List.mem_cons_self
    have hab : sortsBefore q.sortDirection q.sortColumn a b = true :=
      (List.pairwise_cons.mp h).1 b List.mem_cons_self
    have hne := (List.nodup_cons.mp hid).1
    apply hne
    rw [id_eq_of_sortsBefore hab hba]
    exact List.mem_cons_self

theorem first_of_backward {L : List (Row V)} {first row : Row V} {prev : Cursor V} {keep : Row V → Bool} {row' : Row V}
    (h : L.Pairwise fun a b => sortsBefore q.sortDirection q.sortColumn a b = true) (hL : L.head? = some first)
    (hvalue : hasValue q first = true) (hprev : rowCursor p q row' = .ok prev)
    (hkeep : whereCursor p q true (some prev) = .ok keep) (hrow : (L.filter keep).head? = some row) : row = first := by
  cases L with
  | nil => cases hL
  | cons a L =>
    obtain rfl : a = first := Option.some.inj hL
    have hmem : row ∈ a :: L ∧ keep row = true := List.mem_filter.mp (List.mem_of_head? hrow)
    have hkept : keep a = true := by
      rcases whereCursor_cases hprev hkeep with ⟨-,rfl⟩ | ⟨v,-,rfl⟩
      · rfl
      · rcases List.mem_cons.mp hmem.1 with rfl | hbehind
        · exact hmem.2
        · exact cursorCondition_backward hmem.2 hvalue ((List.pairwise_cons.mp h).1 row hbehind)
    rw [List.filter_cons_of_pos hkept] at hrow
    exact (Option.some.inj hrow).symm

section Reversal
variable (hconditions : whereConditions p table q = .ok conditions) (hcolumn : checkSortColumn table q = .ok ())
  (hid : (rows.map Row.id).Nodup) {limit : ℕ} (hlimit : 1 ≤ limit)
include hconditions hcolumn hid

theorem fetch_ok {cursor : Cursor V} {reverse : Bool} {r : CursorPaginatedResponse V}
    (h : fetch p table q rows limit reverse (some cursor) = .ok r) :
    ∃ keep next prev, whereCursor p q reverse (some cursor) = .ok keep ∧
      nextCursorOf p q (decide (limit < ((select q conditions rows).filter keep).length))
        (((select q conditions rows).filter keep).take limit) = .ok next ∧
      prevCursorOf p q (some cursor) (((select q conditions rows).filter keep).take limit) = .ok prev ∧
      r = if reverse then
          ⟨(((select q conditions rows).filter keep).take limit).reverse,prev,next,
            decide (limit < ((select q conditions rows).filter keep).length),true⟩
        else ⟨((select q conditions rows).filter keep).take limit,next,prev,
            decide (limit < ((select q conditions rows).filter keep).length),true⟩ := by
  obtain ⟨keep,hkeep⟩ := whereCursor_of_fetch h
  rw [fetch_eq hconditions hcolumn hid hkeep] at h
  obtain ⟨next,prev,hnext,hprev,hr⟩ := (respond_ok_iff _).mp h
  exact ⟨keep,next,prev,hkeep,hnext,hprev,hr.symm⟩

theorem stepsBack_spec {before page : CursorPaginatedResponse V} (h : StepsBack p table q rows limit before page)
    {cursor : Cursor V} (hpage : fetch p table q rows limit false (some cursor) = .ok page) (hlimit : 1 ≤ limit) :
    ∃ keep second prev keep', whereCursor p q false (some cursor) = .ok keep ∧
      page.items = ((select q conditions rows).filter keep).take limit ∧
      page.hasMore = decide (limit < ((select q conditions rows).filter keep).length) ∧
      nextCursorOf p q (decide (limit < ((select q conditions rows).filter keep).length))
        (((select q conditions rows).filter keep).take limit) = .ok page.nextCursor ∧
      ((select q conditions rows).filter keep).head? = some second ∧ rowCursor p q second = .ok prev ∧
      whereCursor p q true (some prev) = .ok keep' ∧
      before.items = (((select q conditions rows).filter keep').take limit).reverse := by
  obtain ⟨back,r,hback,hr,hitems,-⟩ := h
  obtain ⟨keep,next,prev,hkeep,hnext,hprev,hpageEq⟩ := fetch_ok hconditions hcolumn hid hpage
  obtain ⟨keep',_,_,hkeep',-,-,hrEq⟩ := fetch_ok hconditions hcolumn hid hr
  simp only [Bool.false_eq_true, if_false] at hpageEq
  simp only [if_true] at hrEq
  subst hpageEq
  subst hrEq
  obtain rfl : prev = some back := hback
  unfold prevCursorOf at hprev
  rw [head?_take hlimit] at hprev
  cases hsecond : ((select q conditions rows).filter keep).head? with
  | none =>
    rw [hsecond] at hprev
    cases hprev
  | some second =>
    rw [hsecond] at hprev
    simp only at hprev
    cases hcursor : rowCursor p q second with
    | error e =>
      rw [hcursor] at hprev
      cases hprev
    | ok prev =>
      rw [hcursor] at hprev
      obtain rfl : prev = back := Option.some.inj (Except.ok.inj hprev)
      exact ⟨keep,second,prev,keep',hkeep,rfl,rfl,hnext,hsecond,hcursor,hkeep',hitems.symm⟩

theorem onlyTwo_of_leadsBack {r page : CursorPaginatedResponse V} {rs : List (CursorPaginatedResponse V)}
    {first : Row V} {next : Cursor V} (hfirst : (select q conditions rows).head? = some first)
    (hcursor : rowCursor p q first = .ok next) (hforward : Forward (fetch p table q rows 1 false) (some next) (page :: rs))
    (hitems : r.items = [first])
    (hchain : (r :: page :: rs).IsChain (StepsBack p table q rows 1)) :
    OnlyTwo p q (select q conditions rows) := by
  have hsorted := select_sorted (q := q) conditions rows
  have hpage : fetch p table q rows 1 false (some next) = .ok page := by
    cases hforward with
    | last hr => exact hr
    | more hr => exact hr
  rw [List.isChain_cons_cons] at hchain
  obtain ⟨keep,second,prev,keep',hkeep,hpageItems,hmore,hnext,hsecond,hprev,hkeep',hbefore⟩ :=
    stepsBack_spec hconditions hcolumn hid hchain.1 hpage le_rfl
  generalize hL : select q conditions rows = L at *
  have hkept : keep' first = true := by
    rw [hitems] at hbefore
    have hmem : first ∈ ((L.filter keep').take 1).reverse := by
      rw [← hbefore]
      exact List.mem_cons_self
    exact (List.mem_filter.mp (List.mem_of_mem_take (List.mem_reverse.mp hmem))).2
  refine ⟨first,second,next,prev,keep,keep',hfirst,hcursor,hkeep,?_,hprev,hkeep',hkept⟩
  cases hbehind : L.filter keep with
  | nil =>
    rw [hbehind] at hsecond
    cases hsecond
  | cons a behind =>
    rw [hbehind] at hsecond hpageItems hmore hnext
    obtain rfl : a = second := Option.some.inj hsecond
    cases behind with
    | nil => rfl
    | cons b behind =>
      -- a third row: its page would have to lead back to the second row, but leads to the first
      exfalso
      have hone : 1 < (a :: b :: behind).length := by simp
      rw [decide_eq_true hone] at hmore
      rw [nextCursorOf_more le_rfl hone rfl, hprev] at hnext
      have hpageNext : page.nextCursor = some prev := (Except.ok.inj hnext).symm
      have hlast : Forward (fetch p table q rows 1 false) (some prev) rs := by
        cases hforward with
        | last hr hmore' =>
          rw [hmore] at hmore'
          cases hmore'
        | more hr _ hnext' hrest =>
          obtain rfl := Option.some.inj (hpageNext.symm.trans hnext')
          exact hrest
      have hsame : a = first := by
        rcases whereCursor_cases hcursor hkeep with ⟨-,rfl⟩ | ⟨v,hplace,-⟩
        · have hall : L.filter (fun _ => true) = L := List.filter_eq_self.mpr fun _ _ => rfl
          rw [hall] at hbehind
          rw [hbehind] at hfirst
          exact Option.some.inj hfirst
        · cases rs with
          | nil => cases hlast
          | cons page' rs =>
            have hpage' : fetch p table q rows 1 false (some prev) = .ok page' := by
              cases hlast with
              | last hr => exact hr
              | more hr => exact hr
            obtain ⟨_,third,prev',back,-,-,-,-,-,hprev',hback,hbefore'⟩ :=
              stepsBack_spec hconditions hcolumn hid (List.isChain_cons_cons.mp hchain.2).1 hpage' le_rfl
            rw [hpageItems, hL] at hbefore'
            apply first_of_backward hsorted hfirst (value_of_rowPlace hplace) hprev' hback
            cases hfound : L.filter back with
            | nil =>
              rw [hfound] at hbefore'
              cases hbefore'
            | cons c found =>
              rw [hfound] at hbefore'
              exact congrArg some (List.cons.inj hbefore').1.symm
      subst hsame
      obtain rfl := Except.ok.inj (hprev.symm.trans hcursor)
      exact not_forward_of_loop hpage hmore hpageNext _ hforward

theorem leadsBack_of_onlyTwo (hmany : 1 < (select q conditions rows).length)
    (h : OnlyTwo p q (select q conditions rows)) : LeadsBack p table q rows 1 := by
  obtain ⟨first,second,next,prev,keep,keep',hfirst,hnext,hkeep,hbehind,hprev,hkeep',hkept⟩ := h
  generalize hL : select q conditions rows = L at *
  have htake : L.take 1 = [first] := by
    cases L with
    | nil => cases hfirst
    | cons a L =>
      obtain rfl : a = first := Option.some.inj hfirst
      rfl
  have hback : (L.filter keep').take 1 = [first] := by
    cases L with
    | nil => cases hfirst
    | cons a L =>
      obtain rfl : a = first := Option.some.inj hfirst
      rw [List.filter_cons_of_pos hkept]
      rfl
  have hfirstPage : fetch p table q rows 1 false none = .ok ⟨[first],some next,none,true,false⟩ := by
    rw [fetch_first hconditions hcolumn hid, hL, ← htake]
    have hlast : nextCursorOf p q (decide (1 < L.length)) (L.take 1) = .ok (some next) := by
      rw [htake, decide_eq_true hmany]
      unfold nextCursorOf
      simp only [List.getLast?_singleton, hnext]
      rfl
    refine (respond_ok_iff ⟨1,none,false⟩).mpr ⟨some next,none,hlast,rfl,?_⟩
    rw [decide_eq_true hmany]
    rfl
  have hsecondPage : fetch p table q rows 1 false (some next) = .ok ⟨[second],none,some prev,false,true⟩ := by
    rw [fetch_eq hconditions hcolumn hid hkeep, hL, hbehind]
    refine (respond_ok_iff ⟨1,some next,false⟩).mpr ⟨none,some prev,rfl,?_,rfl⟩
    unfold prevCursorOf
    simp only [List.take_succ_cons, List.head?_cons, hprev]
    rfl
  obtain ⟨found,hfound⟩ : ∃ found, nextCursorOf p q (decide (1 < (L.filter keep').length)) ((L.filter keep').take 1) =
      .ok found := by
    rw [hback]
    unfold nextCursorOf
    cases decide (1 < (L.filter keep').length) with
    | false => exact ⟨none,rfl⟩
    | true =>
      simp only [List.getLast?_singleton, hnext]
      exact ⟨some next,rfl⟩
  have hbackPage : fetch p table q rows 1 true (some prev) =
      .ok ⟨[first],some next,found,decide (1 < (L.filter keep').length),true⟩ := by
    rw [fetch_eq hconditions hcolumn hid hkeep', hL]
    refine (respond_ok_iff ⟨1,some prev,true⟩).mpr ⟨found,some next,hfound,?_,?_⟩
    · rw [hback]
      unfold prevCursorOf
      simp only [List.head?_cons, hnext]
      rfl
    · rw [hback]
      rfl
  refine ⟨_,.more hfirstPage rfl rfl (.last hsecondPage rfl),?_⟩
  rw [List.isChain_cons_cons]
  exact ⟨⟨prev,_,rfl,hbackPage,rfl,next,_,rfl,hsecondPage,rfl⟩,List.isChain_singleton _⟩

end Reversal

/-- The pages lead back exactly when there is one page, or pages of one row and one row behind the first. -/
theorem leadsBack_iff (hconditions : whereConditions p table q = .ok conditions)
    (hcolumn : checkSortColumn table q = .ok ()) (hid : (rows.map Row.id).Nodup) {limit : ℕ} (hlimit : 1 ≤ limit) :
    LeadsBack p table q rows limit ↔ (select q conditions rows).length ≤ limit ∨
      (limit = 1 ∧ OnlyTwo p q (select q conditions rows)) := by
  have hsorted := select_sorted (q := q) conditions rows
  have hids : ((select q conditions rows).map Row.id).Nodup := by
    refine ((List.mergeSort_perm _ _).map Row.id).nodup_iff.mpr (hid.sublist ?_)
    exact List.filter_sublist.map Row.id
  have hfirst := fetch_first hconditions hcolumn hid limit
  by_cases hlength : (select q conditions rows).length ≤ limit
  · -- one page, and nothing to lead back from
    refine iff_of_true ?_ (.inl hlength)
    have hlast : ¬ limit < (select q conditions rows).length := by omega
    have hr : respond p q ⟨limit,none,false⟩ ((select q conditions rows).take (limit+1)) =
        .ok ⟨(select q conditions rows).take limit,none,none,decide (limit < (select q conditions rows).length),false⟩ :=
      (respond_ok_iff ⟨limit,none,false⟩).mpr ⟨none,none,nextCursorOf_last hlast,rfl,rfl⟩
    exact ⟨_,.last (hfirst.trans hr) (decide_eq_false hlast),List.isChain_singleton _⟩
  have hmany : limit < (select q conditions rows).length := by omega
  constructor
  · rintro ⟨rs,hforward,hchain⟩
    right
    cases hforward with
    | last hr hmore =>
      rw [hfirst] at hr
      obtain ⟨next,prev,-,-,rfl⟩ := (respond_ok_iff ⟨limit,none,false⟩).mp hr
      exact absurd hmany (of_decide_eq_false hmore)
    | @more _ next r rs hr hmore hnext hrest =>
      rw [hfirst] at hr
      obtain ⟨next',prev,hnext',-,rfl⟩ := (respond_ok_iff ⟨limit,none,false⟩).mp hr
      obtain rfl : next' = some next := hnext
      cases rs with
      | nil => cases hrest
      | cons page rs =>
        have hpage : fetch p table q rows limit false (some next) = .ok page := by
          cases hrest with
          | last hr => exact hr
          | more hr => exact hr
        obtain ⟨_,_,_,keep',-,-,-,-,-,-,-,hbefore⟩ :=
          stepsBack_spec hconditions hcolumn hid (List.isChain_cons_cons.mp hchain).1 hpage hlimit
        obtain rfl := limit_eq_one hlimit hids hsorted (hsorted.filter keep') hmany hbefore.symm
        refine ⟨rfl,?_⟩
        obtain ⟨first,hhead⟩ : ∃ first, (select q conditions rows)[0]? = some first :=
          ⟨_,List.getElem?_eq_getElem (by omega)⟩
        have hcursor : rowCursor p q first = .ok next := by
          rw [nextCursorOf_more le_rfl hmany hhead] at hnext'
          cases hrow : rowCursor p q first with
          | error e =>
            rw [hrow] at hnext'
            cases hnext'
          | ok cursor =>
            rw [hrow] at hnext'
            exact congrArg Except.ok (Option.some.inj (Except.ok.inj hnext'))
        have hhead' : (select q conditions rows).head? = some first := by
          rw [List.head?_eq_getElem?]
          exact hhead
        have hitems : (select q conditions rows).take 1 = [first] := by
          rw [List.take_one, hhead']
          rfl
        exact onlyTwo_of_leadsBack hconditions hcolumn hid hhead' hcursor hrest hitems hchain
  · rintro (hle | ⟨rfl,honly⟩)
    · omega
    · exact leadsBack_of_onlyTwo hconditions hcolumn hid hmany honly

/-- With values that survive, one row behind the first means two rows. -/
theorem onlyTwo_iff_of_survives {L : List (Row V)}
    (h : L.Pairwise fun a b => sortsBefore q.sortDirection q.sortColumn a b = true)
    (hid : (L.map Row.id).Nodup) (hsurvives : ∀ row ∈ L, Survives p q row)
    (hvalues : ∀ row ∈ L, hasValue q row = true) : OnlyTwo p q L ↔ L.length = 2 := by
  -- what the cursor of a row keeps of two different rows in order
  have hcuts : ∀ a ∈ L, ∀ b ∈ L, a.id ≠ b.id → sortsBefore q.sortDirection q.sortColumn a b = true →
      Cuts p q a b := by
    intro a ha b hb hne hab
    obtain ⟨v,hv⟩ := Option.isSome_iff_exists.mp (hvalues a ha)
    obtain ⟨u,hu⟩ := Option.isSome_iff_exists.mp (hvalues b hb)
    exact cuts_of_survives hv hu (hsurvives a ha) (hsurvives b hb) hne hab
  cases L with
  | nil =>
    refine iff_of_false ?_ (by simp)
    rintro ⟨first,_,_,_,_,_,hfirst,-⟩
    cases hfirst
  | cons a L =>
    obtain ⟨ha,-⟩ := List.pairwise_cons.mp h
    have hne : ∀ b ∈ L, a.id ≠ b.id := by
      intro b hb heq
      apply (List.nodup_cons.mp hid).1
      rw [heq]
      exact List.mem_map_of_mem hb
    constructor
    · rintro ⟨first,second,next,prev,keep,keep',hfirst,hnext,hkeep,hbehind,-⟩
      obtain rfl : a = first := Option.some.inj hfirst
      obtain ⟨v,hv⟩ := Option.isSome_iff_exists.mp (hvalues a List.mem_cons_self)
      have hplace := hsurvives a List.mem_cons_self v hv
      have hall : (a :: L).filter keep = L := by
        rcases whereCursor_cases hnext hkeep with ⟨hnone,-⟩ | ⟨u,hu,rfl⟩
        · rw [hplace] at hnone
          cases hnone
        · have hself : cursorCondition q.sortDirection false q.sortColumn u a.id a = false := by
            obtain rfl := Option.some.inj (hplace.symm.trans hu)
            cases q.sortDirection <;> simp [cursorCondition, isBehind, isBefore, hv]
          rw [List.filter_cons_of_neg (by rw [hself]; decide), List.filter_eq_self]
          intro b hb
          obtain ⟨u',hu',-,hkept,-⟩ := hcuts a List.mem_cons_self b (List.mem_cons_of_mem a hb) (hne b hb) (ha b hb)
          obtain rfl := Option.some.inj (hu.symm.trans hu')
          exact hkept
      rw [hall] at hbehind
      rw [hbehind]
      rfl
    · intro hlength
      obtain ⟨b,rfl⟩ : ∃ b, L = [b] := List.length_eq_one_iff.mp (by simpa using hlength)
      have hb : b ∈ [a,b] := List.mem_cons_of_mem a List.mem_cons_self
      obtain ⟨v,hplace,hself,hkept,-⟩ := hcuts a List.mem_cons_self b hb (hne b List.mem_cons_self)
        (ha b List.mem_cons_self)
      obtain ⟨u,hu⟩ := Option.isSome_iff_exists.mp (hvalues b hb)
      obtain ⟨next,hnext,hkeep⟩ := whereCursor_of_rowPlace hplace false
      obtain ⟨prev,hprev,hkeep'⟩ := whereCursor_of_rowPlace (hsurvives b hb u hu) true
      refine ⟨a,b,next,prev,_,_,rfl,hnext,hkeep,?_,hprev,hkeep',?_⟩
      · rw [List.filter_cons_of_neg (by rw [hself]; decide), List.filter_cons_of_pos hkept, List.filter_nil]
      · obtain ⟨w,hw⟩ := Option.isSome_iff_exists.mp (hvalues a List.mem_cons_self)
        have hab := ha b List.mem_cons_self
        have hids := hne b List.mem_cons_self
        cases hdirection : q.sortDirection with
        | asc =>
          rw [hdirection] at hab
          simp only [sortsBefore, decide_eq_true_eq] at hab
          rw [sortKey_le_iff hw hu] at hab
          simp only [cursorCondition, isBefore, hw, decide_eq_true_eq]
          rcases hab with hlt | ⟨rfl,hle⟩
          · exact .inl hlt
          · exact .inr ⟨rfl,lt_of_le_of_ne hle hids⟩
        | desc =>
          rw [hdirection] at hab
          simp only [sortsBefore, decide_eq_true_eq] at hab
          rw [sortKey_le_iff hu hw] at hab
          simp only [cursorCondition, isBehind, hw, decide_eq_true_eq]
          rcases hab with hlt | ⟨rfl,hle⟩
          · exact .inl hlt
          · exact .inr ⟨rfl,lt_of_le_of_ne hle hids.symm⟩

theorem leadsBack_scores :
    LeadsBack intPackages scoreTable (byScore .asc) [scoreRow 1 (some 4),scoreRow 2 (some 4)] 1 := by
  have hids : ([scoreRow 1 (some 4),scoreRow 2 (some 4)].map Row.id).Nodup := by decide
  have hperm := List.mergeSort_perm
    ([scoreRow 1 (some 4),scoreRow 2 (some 4)].filter fun row =>
      ([] : List (Row ℤ → Bool)).all fun condition => condition row)
    (sortsBefore (byScore .asc).sortDirection (byScore .asc).sortColumn)
  have hid := (hperm.map Row.id).nodup_iff.mpr hids
  have hlength := hperm.length_eq
  have hvalues : ∀ row ∈ [scoreRow 1 (some 4),scoreRow 2 (some 4)], hasValue (byScore .asc) row = true := by decide
  apply (leadsBack_iff rfl rfl hids le_rfl).mpr
  right
  refine ⟨rfl,(onlyTwo_iff_of_survives (select_sorted _ _) hid (fun row _ => survives_score _ row) ?_).mpr hlength⟩
  intro row hrow
  exact hvalues row (mem_select.mp hrow).1

/-- With two rows to a page, the request back from the third row gives the first two in the wrong order. -/
theorem tiedScores_not_led_back : ¬ LeadsBack intPackages scoreTable (byScore .asc) tiedScores 2 := by
  have hsorted : tiedScores.Pairwise fun a b => sortsBefore .asc "score" a b = true := by
    simp only [tiedScores, List.pairwise_cons, List.mem_cons, List.not_mem_nil, or_false, forall_eq_or_imp, forall_eq,
      sortsBefore, decide_eq_true_eq]
    refine ⟨⟨(sortKey_le_iff rfl rfl).mpr (by decide),(sortKey_le_iff rfl rfl).mpr (by decide)⟩,
      (sortKey_le_iff rfl rfl).mpr (by decide),?_⟩
    simp
  have hconditions : whereConditions intPackages scoreTable (byScore .asc) = .ok [] := rfl
  have hselect : select (byScore .asc) [] tiedScores = tiedScores := List.mergeSort_of_pairwise hsorted
  have hfirst : fetch intPackages scoreTable (byScore .asc) tiedScores 2 false none =
      .ok ⟨[scoreRow 1 (some 4),scoreRow 2 (some 4)],some ⟨2,"score",.int 4⟩,none,true,false⟩ := by
    rw [fetch_first hconditions rfl tiedScores_ids, hselect]
    rfl
  have hsecond : fetch intPackages scoreTable (byScore .asc) tiedScores 2 false (some ⟨2,"score",.int 4⟩) =
      .ok ⟨[scoreRow 3 (some 7)],none,some ⟨3,"score",.int 7⟩,false,true⟩ := by
    rw [fetch_eq hconditions rfl tiedScores_ids rfl, hselect]
    rfl
  have hback : fetch intPackages scoreTable (byScore .asc) tiedScores 2 true (some ⟨3,"score",.int 7⟩) =
      .ok ⟨[scoreRow 2 (some 4),scoreRow 1 (some 4)],some ⟨1,"score",.int 4⟩,none,false,true⟩ := by
    rw [fetch_eq hconditions rfl tiedScores_ids rfl, hselect]
    rfl
  rintro ⟨rs,hforward,hchain⟩
  cases hforward with
  | last hr hmore =>
    obtain rfl := Except.ok.inj (hfirst.symm.trans hr)
    cases hmore
  | more hr _ hnext hrest =>
    obtain rfl := Except.ok.inj (hfirst.symm.trans hr)
    cases hnext
    cases hrest with
    | more hr' hmore' =>
      obtain rfl := Except.ok.inj (hsecond.symm.trans hr')
      cases hmore'
    | last hr' _ =>
      obtain rfl := Except.ok.inj (hsecond.symm.trans hr')
      obtain ⟨cursor,r,hprev,hr,hitems,-⟩ := (List.isChain_cons_cons.mp hchain).1
      cases hprev
      obtain rfl := Except.ok.inj (hback.symm.trans hr)
      have hid : (2 : ℤ) = 1 := congrArg Row.id (List.cons.inj hitems).1
      exact absurd hid (by decide)

end Tables
end Allama
