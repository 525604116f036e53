import Allama.Checked
import Allama.CursorValues

/-! Pages of the inbox, cut from the merged items of its providers (`inbox/service.py`, `inbox/providers/approvals.py`). -/
namespace Allama
namespace InboxPages
open CursorValues

inductive InboxItemStatus
  | PENDING | COMPLETED | FAILED
deriving DecidableEq, Repr

inductive SortDirection
  | asc | desc
deriving DecidableEq, Repr

/-- An item. `column` is what `getattr` gives for a sort column, if a cursor can hold it; `F` are the floats. -/
structure InboxItemRead (F : Type) where
  id : Uuid
  status : InboxItemStatus
  created_at : ℤ
  updated_at : ℤ
  column : Text → Option (SortValue F)

/-- A provider: its items, and the first `limit` of them in some order of its own. -/
structure InboxProvider (F : Type) where
  items : List (InboxItemRead F)
  fetch : (limit : ℕ) → (reverse : Bool) → (order_by : Option Text) → (sort : Option SortDirection) → List (InboxItemRead F)
  length_fetch : ∀ limit reverse order_by sort, (fetch limit reverse order_by sort).length = min limit items.length
  fetch_perm : ∀ limit reverse order_by sort, items.length ≤ limit → (fetch limit reverse order_by sort).Perm items

section Approvals

inductive ApprovalStatus
  | PENDING | APPROVED | REJECTED
deriving DecidableEq, Repr

/-- A session of a workflow with its approvals. -/
structure AgentSession (F : Type) where
  id : Uuid
  created_at : ℤ
  updated_at : ℤ
  approvals : List ApprovalStatus
  column : Text → Option (SortValue F)

variable {F : Type}

/-- The status that `_enrich_sessions` computes. -/
def sessionStatus (approvals : List ApprovalStatus) : InboxItemStatus :=
  if approvals.contains .PENDING then .PENDING
  else if approvals.contains .REJECTED then .FAILED
  else .COMPLETED

def enrichSession (session : AgentSession F) : InboxItemRead F :=
  ⟨session.id,sessionStatus session.approvals,session.created_at,session.updated_at,session.column⟩

/-- The `ORDER BY` of the provider: any other column stands for `created_at`, descending. The order of ids breaks ties. -/
def sessionBefore (order_by : Option Text) (sort : Option SortDirection) (a b : AgentSession F) : Bool :=
  let sort_desc := decide (sort ≠ some .asc)
  let sort_col := match order_by with
    | some column => if column.isEmpty then "created_at".toList else column
    | none => "created_at".toList
  let columnBefore (x y : ℤ) (desc : Bool) : Bool := if desc then decide (y < x) else decide (x < y)
  let first :=
    if sort_col = "created_at".toList then columnBefore a.created_at b.created_at sort_desc
    else if sort_col = "updated_at".toList then columnBefore a.updated_at b.updated_at sort_desc
    else columnBefore a.created_at b.created_at true
  let tie :=
    if sort_col = "updated_at".toList then decide (a.updated_at = b.updated_at) else decide (a.created_at = b.created_at)
  let digits (session : AgentSession F) : List ℕ := session.id.digits.map Fin.val
  first || (tie && if sort_desc then decide (digits b ≤ digits a) else decide (digits a ≤ digits b))

/-- `ApprovalsInboxProvider`, without a cursor: one more session than the limit is fetched and left out. -/
def approvalsProvider (sessions : List (AgentSession F)) : InboxProvider F where
  items := sessions.map enrichSession
  fetch limit reverse order_by sort :=
    let fetched := ((sessions.mergeSort (sessionBefore order_by sort)).take (limit+1)).take limit
    (if reverse then fetched.reverse else fetched).map enrichSession
  length_fetch limit reverse order_by sort := by
    rw [List.take_take, Nat.min_eq_left (Nat.le_succ limit), List.length_map, List.length_map]
    cases reverse <;> simp
  fetch_perm limit reverse order_by sort h := by
    rw [List.length_map] at h
    rw [List.take_take, Nat.min_eq_left (Nat.le_succ limit), List.take_of_length_le (by simpa using h)]
    apply List.Perm.map
    cases reverse with
    | false => exact List.mergeSort_perm _ _
    | true => exact (List.reverse_perm _).trans (List.mergeSort_perm _ _)

end Approvals

section Service
variable {F C : Type} (p : Packages F C) (providers : List (InboxProvider F))

structure Page (F C : Type) where
  items : List (InboxItemRead F)
  next_cursor : Option C
  prev_cursor : Option C
  has_more : Bool
  has_previous : Bool
  total_estimate : ℕ

inductive InboxError
  | invalidCursor
  | sortColumn

def keyLe (a b : Bool × ℤ) : Bool := (!a.1 && b.1) || (a.1 == b.1 && decide (a.2 ≤ b.2))

/-- The key of `list.sort`, if the items are sorted at all. -/
def sortKey (order_by : Option Text) (sort_desc : Bool) : Option (InboxItemRead F → Bool × ℤ) :=
  if order_by = some "created_at".toList ∨ order_by = none then some fun x => (false,x.created_at)
  else if order_by = some "updated_at".toList then some fun x => (false,x.updated_at)
  else if order_by = some "status".toList then
    some fun x => (decide (x.status ≠ .PENDING),if sort_desc then x.created_at else -x.created_at)
  else none

/-- `list.sort` with `reverse`, which is stable too. -/
def sortItems (order_by : Option Text) (sort : Option SortDirection) (items : List (InboxItemRead F)) : List (InboxItemRead F) :=
  let sort_desc := decide (sort ≠ some .asc)
  match sortKey order_by sort_desc with
  | none => items
  | some key => items.mergeSort fun a b => if sort_desc then keyLe (key b) (key a) else keyLe (key a) (key b)

/-- The values that `item.id == cursor_id` compares. -/
inductive PyId
  | uuid (u : Uuid)
  | str (s : Text)
deriving DecidableEq

def cursorIndex (items : List (InboxItemRead F)) (cursor_id : Text) (reverse : Bool) : ℕ :=
  match items.findIdx? fun item => PyId.uuid item.id = PyId.str cursor_id with
  | some i => if reverse then i else i+1
  | none => 0

/-- `order_by or "created_at"`. -/
def sortColumn (order_by : Option Text) : Text :=
  match order_by with
  | some column => if column.isEmpty then "created_at".toList else column
  | none => "created_at".toList

def itemCursor (order_by : Option Text) (item : InboxItemRead F) : Except InboxError C :=
  match item.column (sortColumn order_by) with
  | none => .error .sortColumn
  | some value => (encodeCursor p ⟨item.id.chars,some (sortColumn order_by),value⟩).elim (.error .sortColumn) .ok

/-- The id in a cursor, if it is not empty. -/
def cursorId (cursor : Option C) : Except InboxError (Option Text) :=
  match cursor with
  | none => .ok none
  | some c =>
    match decodeCursor p c with
    | none => .error .invalidCursor
    | some data => .ok (if data.id.isEmpty then none else some data.id)

def cursorIf (order_by : Option Text) (isNeeded : Bool) (item : InboxItemRead F) : Except InboxError (Option C) :=
  if isNeeded then some <$> itemCursor p order_by item else .ok none

/-- The cursors of a page are those of its last and its first item. -/
def pageCursors (order_by : Option Text) (items : List (InboxItemRead F)) (has_more has_previous : Bool) :
    Except InboxError (Option C × Option C) :=
  match items.getLast?, items.head? with
  | some last_item, some first_item => do
    let next_cursor ← cursorIf p order_by has_more last_item
    let prev_cursor ← cursorIf p order_by has_previous first_item
    return (next_cursor,prev_cursor)
  | _, _ => .ok (none,none)

/-- The page that is cut out of the merged items at the position of the cursor. -/
def slicePage (limit : ℕ) (reverse : Bool) (order_by : Option Text) (all_items : List (InboxItemRead F)) (found : ℕ) :
    Except InboxError (Page F C) := do
  let start_idx := if reverse then found-limit else found
  let items := if reverse then ((all_items.take found).drop start_idx).reverse else (all_items.drop start_idx).take limit
  let has_more := decide (start_idx+limit < all_items.length)
  let has_previous := decide (0 < start_idx)
  let cursors ← pageCursors p order_by items has_more has_previous
  return ⟨items,cursors.1,cursors.2,has_more,has_previous,all_items.length⟩

def listItemsPaginated (limit : ℕ) (cursor : Option C) (reverse : Bool) (order_by : Option Text) (sort : Option SortDirection) :
    Except InboxError (Page F C) := do
  let cursor_id ← cursorId p cursor
  let initial_fetch_limit := if cursor_id.isSome then limit*10 else limit*2
  let all_items := sortItems order_by sort (providers.flatMap fun provider => provider.fetch initial_fetch_limit reverse order_by sort)
  slicePage p limit reverse order_by all_items (cursor_id.elim 0 fun cursor_id => cursorIndex all_items cursor_id reverse)

/-- The pages from a cursor on, following `next_cursor`; none if a request fails or the pages do not end. -/
def follow (limit : ℕ) (order_by : Option Text) (sort : Option SortDirection) : ℕ → Option C → Option (List (Page F C))
  | 0, _ => none
  | fuel+1, cursor =>
    match listItemsPaginated p providers limit cursor false order_by sort with
    | .error _ => none
    | .ok page =>
      match page.next_cursor with
      | none => some [page]
      | some next => (follow limit order_by sort fuel (some next)).map (page :: ·)

end Service

section Traversal
variable {F C : Type} {p : Packages F C} {providers : List (InboxProvider F)} {limit : ℕ} {order_by : Option Text}
  {sort : Option SortDirection}

/-- All items of the providers. -/
def allItems (providers : List (InboxProvider F)) : List (InboxItemRead F) := providers.flatMap InboxProvider.items

theorem length_sortItems (items : List (InboxItemRead F)) : (sortItems order_by sort items).length = items.length := by
  unfold sortItems
  dsimp only
  split
  · rfl
  · exact List.length_mergeSort items

theorem sortItems_perm (items : List (InboxItemRead F)) : (sortItems order_by sort items).Perm items := by
  unfold sortItems
  dsimp only
  split
  · exact List.Perm.refl items
  · exact List.mergeSort_perm _ _

theorem cursorIndex_eq_zero (items : List (InboxItemRead F)) (cursor_id : Text) (reverse : Bool) :
    cursorIndex items cursor_id reverse = 0 := by
  have hnone : (items.findIdx? fun item => decide (PyId.uuid item.id = PyId.str cursor_id)) = none := by
    rw [List.findIdx?_eq_none_iff]
    intro item _
    exact decide_eq_false fun h => (by cases h)
  rw [cursorIndex, hnone]

theorem length_window_le (window : ℕ) (reverse : Bool) :
    min window (allItems providers).length ≤
      (providers.flatMap fun provider => provider.fetch window reverse order_by sort).length := by
  induction providers with
  | nil => exact Nat.min_le_right window 0
  | cons provider providers ih =>
    rw [allItems, List.flatMap_cons, List.flatMap_cons, List.length_append, List.length_append, provider.length_fetch]
    rw [allItems] at ih
    omega

theorem window_perm {window : ℕ} (reverse : Bool) (h : (allItems providers).length ≤ window) :
    (providers.flatMap fun provider => provider.fetch window reverse order_by sort).Perm (allItems providers) := by
  induction providers with
  | nil => exact List.Perm.refl []
  | cons provider providers ih =>
    rw [allItems, List.flatMap_cons, List.length_append] at h
    rw [allItems, List.flatMap_cons, List.flatMap_cons]
    have hhead := provider.fetch_perm window reverse order_by sort (by omega)
    exact hhead.append (ih (by rw [allItems]; omega))

/-- The items that a request merges and sorts. -/
def merged (providers : List (InboxProvider F)) (window : ℕ) (order_by : Option Text) (sort : Option SortDirection) :
    List (InboxItemRead F) :=
  sortItems order_by sort (providers.flatMap fun provider => provider.fetch window false order_by sort)

theorem listItemsPaginated_eq {cursor : Option C} {cursor_id : Option Text} (h : cursorId p cursor = .ok cursor_id) :
    listItemsPaginated p providers limit cursor false order_by sort =
      slicePage p limit false order_by (merged providers (if cursor_id.isSome then limit*10 else limit*2) order_by sort) 0 := by
  rw [listItemsPaginated, h]
  cases cursor_id with
  | none => rfl
  | some cursor_id =>
    show slicePage p limit false order_by _ (cursorIndex _ cursor_id false) = _
    rw [cursorIndex_eq_zero]
    rfl

theorem cursorIf_ne_none {item : InboxItemRead F} {cursor : Option C} (h : cursorIf p order_by true item = .ok cursor) :
    cursor ≠ none := by
  rw [cursorIf, if_pos rfl] at h
  cases hc : (itemCursor p order_by item : Except InboxError C) with
  | error e =>
    rw [hc] at h
    cases h
  | ok c =>
    rw [hc] at h
    rw [← Except.ok.inj h]
    exact Option.some_ne_none c

theorem pageCursors_more {items : List (InboxItemRead F)} {has_previous : Bool} {cursors : Option C × Option C}
    (h : pageCursors p order_by items true has_previous = .ok cursors) (hne : items ≠ []) : cursors.1 ≠ none := by
  obtain ⟨first_item,rest,rfl⟩ := List.exists_cons_of_ne_nil hne
  have hlast := List.getLast?_eq_some_getLast (List.cons_ne_nil first_item rest)
  rw [pageCursors, hlast, List.head?_cons] at h
  obtain ⟨next_cursor,hnext,h⟩ := Checked.bind_eq_ok.1 h
  obtain ⟨prev_cursor,_,h⟩ := Checked.bind_eq_ok.1 h
  rw [← Except.ok.inj h]
  exact cursorIf_ne_none hnext

theorem slicePage_more {all_items : List (InboxItemRead F)} {page : Page F C} (hlimit : 1 ≤ limit)
    (hmore : limit < all_items.length) (h : slicePage p limit false order_by all_items 0 = .ok page) :
    page.next_cursor ≠ none := by
  obtain ⟨cursors,hcursors,h⟩ := Checked.bind_eq_ok.1 h
  have hflag : decide ((if false = true then 0-limit else 0)+limit < all_items.length) = true := by
    rw [if_neg Bool.false_ne_true, Nat.zero_add]
    exact decide_eq_true hmore
  rw [hflag] at hcursors
  rw [← Except.ok.inj h]
  refine pageCursors_more hcursors ?_
  rw [if_neg Bool.false_ne_true, if_neg Bool.false_ne_true, List.drop_zero]
  apply List.ne_nil_of_length_pos
  rw [List.length_take]
  omega

theorem pageCursors_last (items : List (InboxItemRead F)) : pageCursors p order_by items false false = .ok (none,none) := by
  cases items with
  | nil => rfl
  | cons first_item rest =>
    rw [pageCursors, List.getLast?_eq_some_getLast (List.cons_ne_nil first_item rest), List.head?_cons]
    rfl

theorem slicePage_last {all_items : List (InboxItemRead F)} (h : all_items.length ≤ limit) :
    (slicePage p limit false order_by all_items 0 : Except InboxError (Page F C)) =
      .ok ⟨all_items,none,none,false,false,all_items.length⟩ := by
  have hflag : decide (0+limit < all_items.length) = false := decide_eq_false (by omega)
  simp only [slicePage, if_neg Bool.false_ne_true, List.drop_zero, List.take_of_length_le h, hflag, Nat.lt_irrefl, decide_false,
    pageCursors_last]
  rfl

theorem follow_eq_none (hlimit : 1 ≤ limit) (hmany : limit < (allItems providers).length) (fuel : ℕ) (cursor : Option C) :
    follow p providers limit order_by sort fuel cursor = none := by
  induction fuel generalizing cursor with
  | zero => rfl
  | succ fuel ih =>
    rw [follow]
    cases hpage : listItemsPaginated p providers limit cursor false order_by sort with
    | error e => rfl
    | ok page =>
      obtain ⟨cursor_id,hcursor,_⟩ := Checked.bind_eq_ok.1 hpage
      rw [listItemsPaginated_eq hcursor] at hpage
      have hmore : limit < (merged providers (if cursor_id.isSome then limit*10 else limit*2) order_by sort).length := by
        rw [merged, length_sortItems]
        split
        · have hlength := @length_window_le F providers order_by sort (limit*10) false
          omega
        · have hlength := @length_window_le F providers order_by sort (limit*2) false
          omega
      have hnext := slicePage_more hlimit hmore hpage
      cases hc : page.next_cursor with
      | none => exact absurd hc hnext
      | some next =>
        dsimp only
        rw [hc]
        show (follow p providers limit order_by sort fuel (some next)).map (page :: ·) = none
        rw [ih (some next)]
        rfl

/-- The key of the declared order: `status` has pending items first, and `created_at` in the same direction. -/
def declaredKey (order_by : Option Text) : Option (InboxItemRead F → Bool × ℤ) :=
  if order_by = some "created_at".toList ∨ order_by = none then some fun x => (false,x.created_at)
  else if order_by = some "updated_at".toList then some fun x => (false,x.updated_at)
  else if order_by = some "status".toList then some fun x => (decide (x.status ≠ .PENDING),x.created_at)
  else none

def DeclaredBefore (order_by : Option Text) (sort : Option SortDirection) (a b : InboxItemRead F) : Prop :=
  ∀ key, declaredKey order_by = some key →
    if sort = some .asc then keyLe (key a) (key b) = true else keyLe (key b) (key a) = true

/-- Following `next_cursor` from the first page visits every item once in the declared order and stops,
and `prev_cursor` leads back to the page before. -/
structure VisitsAll (p : Packages F C) (providers : List (InboxProvider F)) (limit : ℕ) (order_by : Option Text)
    (sort : Option SortDirection) (pages : List (Page F C)) : Prop where
  items : (pages.flatMap Page.items).Perm (allItems providers)
  order : (pages.flatMap Page.items).Pairwise (DeclaredBefore order_by sort)
  back : ∀ step ∈ pages.zip pages.tail, ∃ cursor, step.2.prev_cursor = some cursor ∧ ∃ page,
    listItemsPaginated p providers limit (some cursor) true order_by sort = .ok page ∧ page.items = step.1.items

/-- Items of the same kind in an ascending order by status were created at the same time. -/
def SameCreation (items : List (InboxItemRead F)) (order_by : Option Text) (sort : Option SortDirection) : Prop :=
  order_by = some "status".toList → sort = some .asc →
    ∀ a ∈ items, ∀ b ∈ items, (a.status = .PENDING ↔ b.status = .PENDING) → a.created_at = b.created_at

theorem keyLe_iff {a b : Bool × ℤ} : keyLe a b = true ↔ a.1 = false ∧ b.1 = true ∨ a.1 = b.1 ∧ a.2 ≤ b.2 := by
  rw [keyLe]
  cases a.1 <;> cases b.1 <;> simp

theorem sortItems_sorted {key : InboxItemRead F → Bool × ℤ} (h : sortKey order_by (decide (sort ≠ some .asc)) = some key)
    (items : List (InboxItemRead F)) : (sortItems order_by sort items).Pairwise fun a b =>
      if sort = some .asc then keyLe (key a) (key b) = true else keyLe (key b) (key a) = true := by
  have htrans : ∀ a b c : Bool × ℤ, keyLe a b = true → keyLe b c = true → keyLe a c = true := by
    intro a b c hab hbc
    rw [keyLe_iff] at *
    obtain ⟨hab1,hab2⟩ | ⟨hab1,hab2⟩ := hab <;> obtain ⟨hbc1,hbc2⟩ | ⟨hbc1,hbc2⟩ := hbc
    · exact absurd (hab2.symm.trans hbc1) (by decide)
    · exact .inl ⟨hab1,hbc1 ▸ hab2⟩
    · exact .inl ⟨hab1.trans hbc1,hbc2⟩
    · exact .inr ⟨hab1.trans hbc1,hab2.trans hbc2⟩
  have htotal : ∀ a b : Bool × ℤ, keyLe a b = true ∨ keyLe b a = true := by
    intro a b
    rw [keyLe_iff, keyLe_iff]
    cases a.1 <;> cases b.1 <;> simp [le_total]
  unfold sortItems
  dsimp only
  rw [h]
  dsimp only
  by_cases hasc : sort = some .asc
  · rw [decide_eq_false (not_not_intro hasc)]
    simp only [if_neg Bool.false_ne_true, if_pos hasc]
    exact List.pairwise_mergeSort (fun a b c => htrans (key a) (key b) (key c))
      (fun a b => Bool.or_eq_true _ _ ▸ htotal (key a) (key b)) items
  · rw [decide_eq_true hasc]
    simp only [if_pos, if_neg hasc]
    exact List.pairwise_mergeSort (fun a b c hab hbc => htrans (key c) (key b) (key a) hbc hab)
      (fun a b => Bool.or_eq_true _ _ ▸ htotal (key b) (key a)) items

theorem sortKey_of_declared {key : InboxItemRead F → Bool × ℤ} (h : declaredKey order_by = some key)
    (hother : ¬(order_by = some "status".toList ∧ sort = some .asc)) :
    sortKey order_by (decide (sort ≠ some .asc)) = some key := by
  unfold declaredKey at h
  unfold sortKey
  split at h
  · next hcreated => rw [if_pos hcreated, h]
  · next hcreated =>
    rw [if_neg hcreated]
    split at h
    · next hupdated => rw [if_pos hupdated, h]
    · next hupdated =>
      rw [if_neg hupdated]
      split at h
      · next hstatus =>
        have hdesc : sort ≠ some .asc := fun hasc => hother ⟨hstatus,hasc⟩
        rw [if_pos hstatus, decide_eq_true hdesc, ← h]
        rfl
      · cases h

theorem decide_status_iff {a b : InboxItemRead F} :
    decide (a.status ≠ .PENDING) = decide (b.status ≠ .PENDING) ↔ (a.status = .PENDING ↔ b.status = .PENDING) := by
  rw [decide_eq_decide, not_iff_not]

/-- The merged items are in the declared order, but for the ascending order by status, where the later of two items of
the same kind comes first. -/
theorem sortItems_declared_iff (items : List (InboxItemRead F)) :
    (sortItems order_by sort items).Pairwise (DeclaredBefore order_by sort) ↔ SameCreation items order_by sort := by
  by_cases hstatus : order_by = some "status".toList ∧ sort = some .asc
  · obtain ⟨rfl,rfl⟩ := hstatus
    have hsorted := @sortItems_sorted F (some "status".toList) (some .asc) _ rfl items
    simp only [if_pos] at hsorted
    have hdeclared : ∀ a b : InboxItemRead F, DeclaredBefore (some "status".toList) (some .asc) a b ↔
        keyLe (decide (a.status ≠ .PENDING),a.created_at) (decide (b.status ≠ .PENDING),b.created_at) = true := by
      intro a b
      exact ⟨fun h => h _ rfl,fun h key hkey => Option.some.inj hkey ▸ h⟩
    constructor
    · intro hpairs _ _ a ha b hb
      have hall : (sortItems (some "status".toList) (some .asc) items).Pairwise fun a b =>
          (a.status = .PENDING ↔ b.status = .PENDING) → a.created_at = b.created_at := by
        refine hpairs.imp₂ (fun a b hab hcode hsame => ?_) hsorted
        rw [hdeclared, keyLe_iff] at hab
        rw [keyLe_iff] at hcode
        have hkind := decide_status_iff.2 hsame
        rw [hkind] at hab hcode
        have hlow : a.created_at ≤ b.created_at := hab.elim (fun h => absurd (h.1.symm.trans h.2) Bool.false_ne_true) And.right
        have hhigh : -a.created_at ≤ -b.created_at :=
          hcode.elim (fun h => absurd (h.1.symm.trans h.2) Bool.false_ne_true) And.right
        omega
      have hsymm : Std.Symm fun a b : InboxItemRead F =>
          (a.status = .PENDING ↔ b.status = .PENDING) → a.created_at = b.created_at :=
        ⟨fun a b h hkinds => (h hkinds.symm).symm⟩
      exact hall.forall_of_forall (fun _ _ _ => rfl) ((sortItems_perm items).mem_iff.2 ha) ((sortItems_perm items).mem_iff.2 hb)
    · intro hsame
      refine List.Pairwise.imp_of_mem (fun {a b} ha hb hcode => ?_) hsorted
      rw [hdeclared, keyLe_iff]
      cases keyLe_iff.1 hcode with
      | inl hkinds => exact .inl hkinds
      | inr hequal =>
        have hcreated := hsame rfl rfl a ((sortItems_perm items).mem_iff.1 ha) b ((sortItems_perm items).mem_iff.1 hb)
          (decide_status_iff.1 hequal.1)
        exact .inr ⟨hequal.1,le_of_eq hcreated⟩
  · have hsame : SameCreation items order_by sort := fun ho hs => absurd ⟨ho,hs⟩ hstatus
    refine ⟨fun _ => hsame,fun _ => ?_⟩
    cases hkey : (declaredKey order_by : Option (InboxItemRead F → Bool × ℤ)) with
    | none =>
      apply List.pairwise_of_forall
      intro a b key hsome
      rw [hkey] at hsome
      cases hsome
    | some key =>
      refine (sortItems_sorted (sortKey_of_declared hkey hstatus) items).imp fun {a b} hab key' hkey' => ?_
      rw [hkey] at hkey'
      rw [← Option.some.inj hkey']
      exact hab

theorem first_page (h : (allItems providers).length ≤ limit) (window : ℕ) (hwindow : limit ≤ window) :
    (merged providers window order_by sort).Perm (allItems providers) :=
  (sortItems_perm _).trans (window_perm false (h.trans hwindow))

theorem SameCreation.perm {items items' : List (InboxItemRead F)} (h : items.Perm items') :
    SameCreation items order_by sort ↔ SameCreation items' order_by sort := by
  unfold SameCreation
  simp only [h.mem_iff]

/-- The pages visit everything exactly if all items fit on the first one, in the declared order. -/
theorem visitsAll_iff (p : Packages F C) (providers : List (InboxProvider F)) (order_by : Option Text)
    (sort : Option SortDirection) (hlimit : 1 ≤ limit) :
    (∃ fuel pages, follow p providers limit order_by sort fuel none = some pages ∧
        VisitsAll p providers limit order_by sort pages) ↔
      (allItems providers).length ≤ limit ∧ SameCreation (allItems providers) order_by sort := by
  have hsingle : (allItems providers).length ≤ limit → ∀ fuel, follow p providers limit order_by sort (fuel+1) none =
      some [⟨merged providers (limit*2) order_by sort,none,none,false,false,(merged providers (limit*2) order_by sort).length⟩] := by
    intro hfits fuel
    have hlength : (merged providers (limit*2) order_by sort).length ≤ limit := by
      rw [(first_page hfits (limit*2) (by omega)).length_eq]
      exact hfits
    rw [follow, @listItemsPaginated_eq F C p providers limit order_by sort none none rfl]
    show (match (slicePage p limit false order_by (merged providers (limit*2) order_by sort) 0 :
        Except InboxError (Page F C)) with | .error _ => none | .ok page => _) = _
    rw [slicePage_last hlength]
  have horder : (allItems providers).length ≤ limit →
      ((merged providers (limit*2) order_by sort).Pairwise (DeclaredBefore order_by sort) ↔
        SameCreation (allItems providers) order_by sort) := fun hfits =>
    (sortItems_declared_iff _).trans (SameCreation.perm (window_perm false (by omega)))
  constructor
  · intro ⟨fuel,pages,hfollow,hvisits⟩
    have hfits : (allItems providers).length ≤ limit := by
      by_contra hmany
      rw [follow_eq_none hlimit (by omega)] at hfollow
      cases hfollow
    refine ⟨hfits,(horder hfits).1 ?_⟩
    cases fuel with
    | zero => cases hfollow
    | succ fuel =>
      have hpages := Option.some.inj ((hsingle hfits fuel).symm.trans hfollow)
      have hpairs := hvisits.order
      rw [← hpages, List.flatMap_cons, List.flatMap_nil, List.append_nil] at hpairs
      exact hpairs
  · intro ⟨hfits,hsame⟩
    refine ⟨1,_,hsingle hfits 0,?_,?_,fun _ hstep => absurd hstep List.not_mem_nil⟩
    · rw [List.flatMap_cons, List.flatMap_nil, List.append_nil]
      exact first_page hfits (limit*2) (by omega)
    · rw [List.flatMap_cons, List.flatMap_nil, List.append_nil]
      exact (horder hfits).2 hsame

end Traversal

section Samples

/-- JSON read as it is written, without floats. -/
def samplePackages : Packages Unit (JsonCursor Unit) where
  finite _ := true
  dumpDatetime d := isoText d.1
  dumps := some
  loads := some

def sampleSession (digit : Fin 16) : AgentSession Unit where
  id := Uuid.ofDigit digit
  created_at := digit.val
  updated_at := digit.val
  approvals := [.PENDING]
  column _ := some (.str "2024".toList)

def twoSessions : List (InboxProvider Unit) := [approvalsProvider [sampleSession 1,sampleSession 2]]

theorem visitsAll_iff_two :
    1 ≤ 1 ∧
    ((∃ fuel pages, follow samplePackages twoSessions 1 none none fuel none = some pages ∧
        VisitsAll samplePackages twoSessions 1 none none pages) ↔
      (allItems twoSessions).length ≤ 1 ∧ SameCreation (allItems twoSessions) none none) :=
  ⟨Nat.le_refl 1,visitsAll_iff samplePackages twoSessions none none (Nat.le_refl 1)⟩

theorem twoSessions_window (window : ℕ) (h : 2 ≤ window) :
    merged twoSessions window none none = merged twoSessions 2 none none := by
  have hfetch : ∀ n, 2 ≤ n → (approvalsProvider [sampleSession 1,sampleSession 2]).fetch n false none none =
      ([sampleSession 1,sampleSession 2].mergeSort (sessionBefore none none)).map enrichSession := by
    intro n hn
    have hlength : ([sampleSession 1,sampleSession 2].mergeSort (sessionBefore none none)).length ≤ n := by
      rw [List.length_mergeSort]
      exact hn
    show (((_ : List (AgentSession Unit)).take (n+1)).take n).map enrichSession = _
    rw [List.take_of_length_le (hlength.trans (Nat.le_succ n)), List.take_of_length_le hlength]
  rw [merged, merged, twoSessions, List.flatMap_singleton, List.flatMap_singleton, hfetch window h, hfetch 2 (Nat.le_refl 2)]

theorem itemCursor_sample : ∀ item ∈ allItems twoSessions, ∃ cursor,
    itemCursor samplePackages none item = .ok cursor ∧ cursorId samplePackages (some cursor) = .ok (some item.id.chars) :=
  List.forall_mem_cons.2 ⟨⟨_,rfl,rfl⟩,List.forall_mem_singleton.2 ⟨_,rfl,rfl⟩⟩

/-- With pages of one item, two items are never both visited: the page behind the cursor of the first one is the first
one again. -/
theorem not_visitsAll :
    (∃ page cursor page', listItemsPaginated samplePackages twoSessions 1 none false none none = .ok page ∧
      page.next_cursor = some cursor ∧
      listItemsPaginated samplePackages twoSessions 1 (some cursor) false none none = .ok page' ∧
      page'.items = page.items ∧ page.items.length = 1) ∧
    ∀ fuel, follow samplePackages twoSessions 1 none none fuel none = none := by
  refine ⟨?_,fun fuel => follow_eq_none (Nat.le_refl 1) (by decide) fuel none⟩
  have hperm : (merged twoSessions 2 none none).Perm (allItems twoSessions) := first_page (Nat.le_refl 2) 2 (Nat.le_refl 2)
  obtain ⟨a,b,hmerged⟩ := List.length_eq_two.1 hperm.length_eq
  have ha : a ∈ allItems twoSessions := hperm.mem_iff.1 (hmerged ▸ List.mem_cons_self)
  obtain ⟨cursor,hcursor,hid⟩ := itemCursor_sample a ha
  have hpage : slicePage samplePackages 1 false none [a,b] 0 = .ok ⟨[a],some cursor,none,true,false,2⟩ := by
    have hnext : cursorIf samplePackages none true a = .ok (some cursor) := by
      rw [cursorIf, if_pos rfl, hcursor]
      rfl
    show (do
      let cursors ← (do
        let next_cursor ← cursorIf samplePackages none true a
        let prev_cursor ← cursorIf samplePackages none false a
        return (next_cursor,prev_cursor))
      return (⟨[a],cursors.1,cursors.2,true,false,2⟩ : Page Unit (JsonCursor Unit))) = _
    rw [hnext]
    rfl
  refine ⟨⟨[a],some cursor,none,true,false,2⟩,cursor,⟨[a],some cursor,none,true,false,2⟩,?_,rfl,?_,rfl,rfl⟩
  · rw [@listItemsPaginated_eq Unit _ samplePackages twoSessions 1 none none none none rfl]
    show slicePage samplePackages 1 false none (merged twoSessions 2 none none) 0 = _
    rw [hmerged]
    exact hpage
  · rw [listItemsPaginated_eq hid]
    show slicePage samplePackages 1 false none (merged twoSessions 10 none none) 0 = _
    rw [twoSessions_window 10 (by omega), hmerged]
    exact hpage

end Samples
end InboxPages
end Allama
