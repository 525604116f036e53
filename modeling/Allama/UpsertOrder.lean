import Allama.Upserts

/-! When a batch of upserts does what its rows do in list order. -/
namespace Allama
namespace Tables
open Checked KeyedStore

/-- The names of the columns that a row supplies. -/
def cellNames {S : Type} (cells : StoredCells S) : Finset String := (cells.map (·.1)).toFinset

section Rows
variable {D T U S : Type} (p : RowPackages D T U S) (relation : Relation S) [DecidableEq S]

omit [DecidableEq S] in
theorem lookup_isSome_iff {cells : StoredCells S} {name : String} :
    (cells.lookup name).isSome ↔ name ∈ cellNames cells := by
  rw [cellNames, List.mem_toFinset]
  induction cells with
  | nil => simp
  | cons cell cells ih =>
    obtain ⟨other,stored⟩ := cell
    rw [List.lookup_cons, List.map_cons, List.mem_cons]
    by_cases hname : name = other
    · subst hname
      simp
    · rw [beq_false_of_ne hname]
      simp [hname, ih]

omit [DecidableEq S] in
theorem proposed_of_mem {cells : StoredCells S} {name : String} (h : name ∈ cellNames cells) :
    some (proposed relation cells name) = cells.lookup name := by
  obtain ⟨stored,hstored⟩ := Option.isSome_iff_exists.mp (lookup_isSome_iff.mpr h)
  rw [proposed, hstored]
  rfl

omit [DecidableEq S] in
theorem lookup_of_not_mem {cells : StoredCells S} {name : String} (h : name ∉ cellNames cells) :
    cells.lookup name = none := by
  rw [← Option.not_isSome_iff_eq_none, lookup_isSome_iff]
  exact h

theorem coalesced_eq_merge (index : String) (cells : StoredCells S) (old : TableRow S) :
    coalesced p ((cellNames cells).erase index) (proposed relation cells) old =
      (coalescing p relation index).merge cells old := by
  funext name
  simp only [coalesced, coalescing, Finset.mem_erase]
  by_cases hindex : name = index
  · simp [hindex]
  by_cases hname : name ∈ cellNames cells
  · rw [← proposed_of_mem relation hname]
    by_cases hnull : proposed relation cells name = p.null <;> simp [hindex, hname, hnull, Option.filter]
  · rw [lookup_of_not_mem hname]
    simp [hindex, hname]

theorem merge_of_key_alone {index : String} {cells : StoredCells S} (h : (cellNames cells).erase index = ∅)
    (old : TableRow S) : (coalescing p relation index).merge cells old = old := by
  rw [← coalesced_eq_merge, h]
  funext name
  simp [coalesced]

theorem excluded_eq_merge (index : String) (cells : StoredCells S) (old : TableRow S) :
    excluded ((cellNames cells).erase index) (proposed relation cells) old =
      (supplying p relation index).merge cells old := by
  funext name
  simp only [excluded, supplying, Finset.mem_erase]
  by_cases hindex : name = index
  · simp [hindex]
  by_cases hname : name ∈ cellNames cells
  · rw [← proposed_of_mem relation hname]
    simp [hindex, hname]
  · rw [lookup_of_not_mem hname]
    simp [hindex, hname]

end Rows

section OneStatement
variable {D T U S : Type} {p : RowPackages D T U S} {relation : Relation S} [DecidableEq S]
variable {progress : Progress S}
variable {error : WriteError} {table : Table} {index : String}

def Progress.Consistent (progress : Progress S) : Prop :=
  ∀ key ∈ progress.touched, (progress.content.rows key).isSome

theorem Progress.Consistent.insert {progress : Progress S} (h : progress.Consistent) (key : S) (row : TableRow S) :
    (progress.insert key row).Consistent := by
  intro other hother
  by_cases hkey : other = key
  · subst hkey
    simp [Progress.insert]
  · have htouched : other ∈ progress.touched := by simpa [Progress.insert, hkey] using hother
    rw [Progress.insert]
    simpa [hkey] using h other htouched

variable (error) in
/-- A row of NULL, and a row of a key that this statement has not written. -/
theorem onConflict_step {update : Option (TableRow S → TableRow S → TableRow S)}
    {w : Writer S (TableRow S) (StoredCells S)} (hw : w.key = keyOf p relation index)
    (hmake : w.make = proposed relation) {cells : StoredCells S}
    (hset : ∀ set, update = some set → ∀ old, set (proposed relation cells) old = w.merge cells old)
    (hnothing : update = none → ∀ old, w.merge cells old = old)
    (hallowed : allowed p relation table (proposed relation cells) = true)
    (hconsistent : progress.Consistent)
    (hfresh : update ≠ none → ∀ key, w.key cells = some key → key ∉ progress.touched) :
    ∃ next, onConflict p relation error table index update progress cells = .ok next ∧
      next.content = w.put cells progress.content ∧ next.Consistent ∧
      ∀ key, key ∈ next.touched → key ∈ progress.touched ∨ w.key cells = some key := by
  unfold onConflict
  dsimp only
  rw [if_pos hallowed]
  by_cases hnull : proposed relation cells index = p.null
  · have hkey : w.key cells = none := by rw [hw, keyOf, if_pos hnull]
    refine ⟨_,if_pos hnull,?_,hconsistent,fun key hkey => .inl hkey⟩
    rw [Writer.put, hkey, hmake]
    rfl
  · have hkey : w.key cells = some (proposed relation cells index) := by rw [hw, keyOf, if_neg hnull]
    rw [if_neg hnull]
    have hput : w.put cells progress.content =
        ⟨Function.update progress.content.rows (proposed relation cells index)
          (some (w.over cells (progress.content.rows (proposed relation cells index)))),progress.content.unkeyed⟩ := by
      rw [Writer.put, hkey]
    have htouched : ∀ key, key ∈ proposed relation cells index :: progress.touched →
        key ∈ progress.touched ∨ w.key cells = some key := by
      intro key hmem
      rcases List.mem_cons.mp hmem with rfl | hmem
      · exact .inr hkey
      · exact .inl hmem
    cases hrow : progress.content.rows (proposed relation cells index) with
    | none =>
      refine ⟨_,rfl,?_,hconsistent.insert _ _,htouched⟩
      rw [hput, hrow, Writer.over, hmake]
      rfl
    | some old =>
      cases hupdate : update with
      | none =>
        refine ⟨_,rfl,?_,hconsistent,fun key hkey => .inl hkey⟩
        have hsame : Function.update progress.content.rows (proposed relation cells index) (some old) =
            progress.content.rows := by
          rw [← hrow]
          exact Function.update_eq_self ..
        rw [hput, hrow, Writer.over, hnothing hupdate, hsame]
      | some set =>
        have hnot := hfresh (by simp [hupdate]) _ hkey
        refine ⟨_,if_neg hnot,?_,hconsistent.insert _ _,htouched⟩
        rw [hput, hrow, Writer.over, ← hset set hupdate]
        rfl

theorem onConflict_ok {set : TableRow S → TableRow S → TableRow S} {cells : StoredCells S}
    {next : Progress S} (hconsistent : progress.Consistent)
    (h : onConflict p relation error table index (some set) progress cells = .ok next) :
    ∀ key, keyOf p relation index cells = some key → key ∉ progress.touched ∧ key ∈ next.touched := by
  intro key hkey
  rw [keyOf] at hkey
  split at hkey
  · cases hkey
  · rename_i hnull
    cases hkey
    unfold onConflict at h
    dsimp only at h
    split at h
    swap
    · cases h
    split at h
    · rename_i hrow
      cases h
      refine ⟨fun htouched => ?_,List.mem_cons_self⟩
      have hsome := hconsistent _ htouched
      rw [hrow] at hsome
      cases hsome
    · rename_i heq
      cases heq
    · rename_i heq
      cases heq
      split at h
      · cases h
      · rename_i hnot
        cases h
        exact ⟨hnot,List.mem_cons_self⟩

theorem onConflict_allowed {update : Option (TableRow S → TableRow S → TableRow S)}
    {cells : StoredCells S} {next : Progress S}
    (h : onConflict p relation error table index update progress cells = .ok next) :
    allowed p relation table (proposed relation cells) = true := by
  unfold onConflict at h
  dsimp only at h
  split at h
  · assumption
  · cases h

theorem onConflict_touched {update : Option (TableRow S → TableRow S → TableRow S)}
    {cells : StoredCells S} {next : Progress S}
    (h : onConflict p relation error table index update progress cells = .ok next) :
    ∀ key ∈ progress.touched, key ∈ next.touched := by
  intro key hkey
  unfold onConflict at h
  dsimp only at h
  split at h
  swap
  · cases h
  split at h
  · cases h
    exact hkey
  split at h
  · cases h
    exact List.mem_cons_of_mem _ hkey
  · cases h
    exact hkey
  · split at h
    · cases h
    · cases h
      exact List.mem_cons_of_mem _ hkey

variable (error) in
theorem onConflict_coalescing {cells : StoredCells S} {names : Finset String}
    (hnames : cellNames cells = names)
    (hallowed : allowed p relation table (proposed relation cells) = true)
    (hconsistent : progress.Consistent)
    (hfresh : names.erase index ≠ ∅ → ∀ key, keyOf p relation index cells = some key → key ∉ progress.touched) :
    ∃ next, onConflict p relation error table index (groupUpdate p index names) progress cells = .ok next ∧
      next.content = (coalescing p relation index).put cells progress.content ∧ next.Consistent ∧
      ∀ key, key ∈ next.touched → key ∈ progress.touched ∨ keyOf p relation index cells = some key := by
  subst hnames
  apply onConflict_step error (w := coalescing p relation index) rfl rfl
  · intro set hset old
    rw [groupUpdate] at hset
    split at hset
    · cases hset
    · cases hset
      exact coalesced_eq_merge ..
  · intro hnothing old
    rw [groupUpdate] at hnothing
    split at hnothing
    · rename_i halone
      exact merge_of_key_alone p relation halone old
    · cases hnothing
  · exact hallowed
  · exact hconsistent
  · intro hupdate
    apply hfresh
    intro halone
    rw [groupUpdate, if_pos halone] at hupdate
    exact hupdate rfl

/-- A group whose rows write no key twice, or update nothing. -/
def WritesOnce (p : RowPackages D T U S) (relation : Relation S) (index : String) (names : Finset String)
    (group : List (StoredCells S)) : Prop :=
  names.erase index = ∅ ∨ (group.filterMap (keyOf p relation index)).Nodup

variable (error) in
/-- A statement succeeds if and only if its rows are allowed and write no key twice, and leaves what the writer does. -/
theorem statement_iff {names : Finset String} {group : List (StoredCells S)}
    (hnames : ∀ cells ∈ group, cellNames cells = names) (hconsistent : progress.Consistent)
    {content : Content S} :
    (∃ next, group.foldlM (onConflict p relation error table index (groupUpdate p index names)) progress = .ok next ∧
      next.content = content) ↔
    (∀ cells ∈ group, allowed p relation table (proposed relation cells) = true) ∧
      (names.erase index = ∅ ∨ (group.filterMap (keyOf p relation index)).Nodup ∧
        ∀ key ∈ group.filterMap (keyOf p relation index), key ∉ progress.touched) ∧
      content = (coalescing p relation index).putAll group progress.content := by
  induction group generalizing progress with
  | nil =>
    simp only [List.foldlM_nil, List.not_mem_nil, false_implies, implies_true, List.filterMap_nil, List.nodup_nil,
      and_self, or_true, true_and]
    constructor
    · rintro ⟨next,h,rfl⟩
      rw [← Except.ok.inj h]
      rfl
    · rintro rfl
      exact ⟨progress,rfl,rfl⟩
  | cons cells group ih =>
    have hhead := hnames cells List.mem_cons_self
    have htail : ∀ other ∈ group, cellNames other = names := fun other hother => hnames other (List.mem_cons_of_mem _ hother)
    rw [List.foldlM_cons]
    constructor
    · rintro ⟨next,h,hcontent⟩
      obtain ⟨middle,hmiddle,hrest⟩ := bind_eq_ok.mp h
      have hallowed := onConflict_allowed hmiddle
      -- the keys that the first row writes
      have hkeys : names.erase index ≠ ∅ → ∀ key, keyOf p relation index cells = some key →
          key ∉ progress.touched ∧ key ∈ middle.touched := by
        intro hne
        rw [groupUpdate, if_neg hne] at hmiddle
        exact onConflict_ok hconsistent hmiddle
      obtain ⟨middle',hmiddle',hput,hconsistent',htouched⟩ := onConflict_coalescing error hhead hallowed hconsistent
        fun hne key hkey => (hkeys hne key hkey).1
      obtain rfl := Except.ok.inj (hmiddle.symm.trans hmiddle')
      obtain ⟨hall,honce,hfinal⟩ := (ih htail hconsistent').mp ⟨next,hrest,hcontent⟩
      refine ⟨List.forall_mem_cons.mpr ⟨hallowed,hall⟩,?_,?_⟩
      · rcases honce with halone | ⟨hnodup,hnot⟩
        · exact .inl halone
        · by_cases halone : names.erase index = ∅
          · exact .inl halone
          right
          have hmono := onConflict_touched hmiddle
          cases hkey : keyOf p relation index cells with
          | none =>
            rw [List.filterMap_cons_none hkey]
            exact ⟨hnodup,fun key hmem htouched => hnot key hmem (hmono key htouched)⟩
          | some key =>
            rw [List.filterMap_cons_some hkey]
            have hfirst := hkeys halone key hkey
            refine ⟨List.nodup_cons.mpr ⟨fun hmem => hnot key hmem hfirst.2,hnodup⟩,?_⟩
            intro other hother htouched
            rcases List.mem_cons.mp hother with rfl | hother
            · exact hfirst.1 htouched
            · exact hnot other hother (hmono other htouched)
      · rw [hfinal, hput]
        rfl
    · rintro ⟨hall,honce,rfl⟩
      obtain ⟨hallowed,hall⟩ := List.forall_mem_cons.mp hall
      have hfresh : names.erase index ≠ ∅ → ∀ key, keyOf p relation index cells = some key → key ∉ progress.touched := by
        intro hne key hkey
        rcases honce with halone | ⟨-,hnot⟩
        · exact absurd halone hne
        · apply hnot
          rw [List.filterMap_cons_some hkey]
          exact List.mem_cons_self
      obtain ⟨middle,hmiddle,hput,hconsistent',htouched⟩ :=
        onConflict_coalescing error hhead hallowed hconsistent hfresh
      have hrest : names.erase index = ∅ ∨ (group.filterMap (keyOf p relation index)).Nodup ∧
          ∀ key ∈ group.filterMap (keyOf p relation index), key ∉ middle.touched := by
        rcases honce with halone | ⟨hnodup,hnot⟩
        · exact .inl halone
        right
        cases hkey : keyOf p relation index cells with
        | none =>
          rw [List.filterMap_cons_none hkey] at hnodup hnot
          refine ⟨hnodup,fun key hmem hmiddle => ?_⟩
          rcases htouched key hmiddle with hold | hnew
          · exact hnot key hmem hold
          · rw [hkey] at hnew
            cases hnew
        | some key =>
          rw [List.filterMap_cons_some hkey] at hnodup hnot
          obtain ⟨hfirst,hnodup⟩ := List.nodup_cons.mp hnodup
          refine ⟨hnodup,fun other hmem hmiddle => ?_⟩
          rcases htouched other hmiddle with hold | hnew
          · exact hnot other (List.mem_cons_of_mem _ hmem) hold
          · rw [hkey] at hnew
            cases hnew
            exact hfirst hmem
      have hfinal : (coalescing p relation index).putAll (cells :: group) progress.content =
          (coalescing p relation index).putAll group middle.content := by
        rw [hput]
        rfl
      obtain ⟨next,hnext,hcontent⟩ := (ih htail hconsistent').mpr ⟨hall,hrest,hfinal⟩
      exact ⟨next,bind_eq_ok.mpr ⟨middle,hmiddle,hnext⟩,hcontent⟩

end OneStatement

section Groups
variable {D T U S : Type} {p : RowPackages D T U S} {relation : Relation S} [DecidableEq S]
variable {A : Type} {groups : List (Finset String × List (List (Column × PyValue D T U)))}
variable {table : Table} {index : String}

/-- A normalised row and its cells, where the row is not rejected. -/
def Accepted (p : RowPackages D T U S) (relation : Relation S) (table : Table) (index : String)
    (row : List (Column × PyValue D T U)) (cells : StoredCells S) : Prop :=
  executeRow p row = .ok cells ∧ index ∈ columnNames row ∧ allowed p relation table (proposed relation cells) = true

omit [DecidableEq S] in
theorem name_of_execute {error : WriteError} {column : Column} {parameter : BindParameter D T U} {cell : String × S}
    (h : execute p error column parameter = .ok cell) : cell.1 = column.name := by
  rw [execute] at h
  split at h
  · rw [← Except.ok.inj h]
  · cases h

omit [DecidableEq S] in
theorem cellNames_of_executeRow {row : List (Column × PyValue D T U)} {cells : StoredCells S}
    (h : executeRow p row = .ok cells) : cellNames cells = columnNames row := by
  have hall := mapM_eq_ok.mp h
  have hnames : cells.map (·.1) = row.map (·.1.name) := by
    clear h
    induction hall with
    | nil => rfl
    | @cons entry cell _ _ hcell _ ih =>
      rw [List.map_cons, List.map_cons, ih, name_of_execute hcell]
  rw [cellNames, columnNames, hnames]

/-- A group succeeds if and only if its rows are accepted and write no key twice. -/
theorem executeGroup_iff {group : Finset String × List (List (Column × PyValue D T U))}
    (hnames : ∀ row ∈ group.2, columnNames row = group.1) {content after : Content S} :
    (∃ progress, executeGroup p relation table index content group = .ok progress ∧ progress.content = after) ↔
      ∃ cells, List.Forall₂ (Accepted p relation table index) group.2 cells ∧ WritesOnce p relation index group.1 cells ∧
        after = (coalescing p relation index).putAll cells content := by
  have hempty : (⟨content,[],0⟩ : Progress S).Consistent := nofun
  rw [executeGroup]
  constructor
  · rintro ⟨progress,h,hafter⟩
    split at h
    swap
    · cases h
    rename_i hindex
    obtain ⟨cells,hcells,hrun⟩ := bind_eq_ok.mp h
    have hstored := mapM_eq_ok.mp hcells
    have hcellNames : ∀ other ∈ cells, cellNames other = group.1 := by
      intro other hother
      obtain ⟨row,hrow,hexecuted⟩ := exists_of_forall₂ hstored.flip hother
      rw [cellNames_of_executeRow hexecuted, hnames row hrow]
    obtain ⟨hall,honce,hfinal⟩ := (statement_iff _ hcellNames hempty).mp ⟨progress,hrun,hafter⟩
    refine ⟨cells,?_,honce.imp_right And.left,hfinal⟩
    apply List.forall₂_iff_get.mpr
    refine ⟨hstored.length_eq,fun i hi hi' => ⟨(List.forall₂_iff_get.mp hstored).2 i hi hi',?_,hall _ (List.get_mem _ _)⟩⟩
    exact of_decide_eq_true (List.all_eq_true.mp hindex _ (List.get_mem _ _))
  · rintro ⟨cells,haccepted,honce,rfl⟩
    have hindex : (group.2.all fun row => index ∈ columnNames row) = true := by
      apply List.all_eq_true.mpr
      intro row hrow
      obtain ⟨_,_,hother⟩ := exists_of_forall₂ haccepted hrow
      exact decide_eq_true hother.2.1
    have hstored : List.Forall₂ (fun row cells => executeRow p row = .ok cells) group.2 cells :=
      haccepted.imp fun _ _ h => h.1
    have hcellNames : ∀ other ∈ cells, cellNames other = group.1 := by
      intro other hother
      obtain ⟨row,hrow,hexecuted⟩ := exists_of_forall₂ hstored.flip hother
      rw [cellNames_of_executeRow hexecuted, hnames row hrow]
    have hall : ∀ other ∈ cells, allowed p relation table (proposed relation other) = true := by
      intro other hother
      obtain ⟨row,_,hrow⟩ := exists_of_forall₂ haccepted.flip hother
      exact hrow.2.2
    obtain ⟨progress,hrun,hafter⟩ := (statement_iff (.dbapiError "Failed to insert batch") hcellNames hempty).mpr
      ⟨hall,honce.imp_right fun hnodup => ⟨hnodup,fun _ _ => nofun⟩,rfl⟩
    refine ⟨progress,?_,hafter⟩
    rw [if_pos hindex]
    exact bind_eq_ok.mpr ⟨cells,mapM_eq_ok.mpr hstored,hrun⟩

/-- The statements succeed if and only if each group does. -/
theorem executeGroups_iff (hnames : ∀ group ∈ groups, ∀ row ∈ group.2, columnNames row = group.1)
    {content after : Content S} {affected : ℕ} :
    (∃ total, executeGroups p relation table index groups content affected = (.ok total,after)) ↔
      ∃ css, List.Forall₂ (fun group cells => List.Forall₂ (Accepted p relation table index) group.2 cells ∧
          WritesOnce p relation index group.1 cells) groups css ∧
        after = (coalescing p relation index).putAll css.flatten content := by
  induction groups generalizing content after affected with
  | nil =>
    rw [executeGroups]
    constructor
    · rintro ⟨total,h⟩
      exact ⟨[],.nil,(Prod.mk.inj h).2.symm⟩
    · rintro ⟨css,hcss,rfl⟩
      cases hcss
      exact ⟨affected,rfl⟩
  | cons group groups ih =>
    have htail := fun other hother => hnames other (List.mem_cons_of_mem _ hother)
    have hhead := hnames group List.mem_cons_self
    constructor
    · rintro ⟨total,h⟩
      rw [executeGroups] at h
      split at h
      swap
      · cases h
      rename_i progress hprogress
      obtain ⟨cells,haccepted,honce,hcontent⟩ := (executeGroup_iff hhead).mp ⟨progress,hprogress,rfl⟩
      obtain ⟨css,hcss,hafter⟩ := (ih htail).mp ⟨total,h⟩
      refine ⟨cells :: css,.cons ⟨haccepted,honce⟩ hcss,?_⟩
      rw [hafter, hcontent, List.flatten_cons, putAll_append]
    · rintro ⟨css,hcss,rfl⟩
      cases hcss with
      | cons hcells hcss =>
        rename_i cells css
        have hgroup : ∃ progress, executeGroup p relation table index content group = .ok progress ∧
            progress.content = (coalescing p relation index).putAll cells content :=
          (executeGroup_iff hhead).mpr ⟨cells,hcells.1,hcells.2,rfl⟩
        obtain ⟨progress,hprogress,hcontent⟩ := hgroup
        have hrest : ∃ total, executeGroups p relation table index groups progress.content (affected + progress.affected) =
            (.ok total,(coalescing p relation index).putAll css.flatten progress.content) :=
          (ih htail).mpr ⟨css,hcss,rfl⟩
        obtain ⟨total,htotal⟩ := hrest
        refine ⟨total,?_⟩
        rw [executeGroups, hprogress, List.flatten_cons, putAll_append, ← hcontent]
        exact htotal

theorem addToGroup_keys {keys : A → Finset String} {row : A}
    {groups : List (Finset String × List A)}
    (h : ∀ group ∈ groups, ∀ other ∈ group.2, keys other = group.1) :
    ∀ group ∈ addToGroup (keys row) row groups, ∀ other ∈ group.2, keys other = group.1 := by
  induction groups with
  | nil =>
    intro group hgroup other hother
    obtain rfl := List.mem_singleton.mp hgroup
    rw [List.mem_singleton.mp hother]
  | cons head groups ih =>
    have htail := fun group hgroup => h group (List.mem_cons_of_mem _ hgroup)
    have hhead := h head List.mem_cons_self
    rw [addToGroup]
    split
    · rename_i hkeys
      refine List.forall_mem_cons.mpr ⟨fun other hother => ?_,htail⟩
      rcases List.mem_append.mp hother with hother | hother
      · exact hhead other hother
      · rw [List.mem_singleton.mp hother, hkeys]
    · exact List.forall_mem_cons.mpr ⟨hhead,ih htail⟩

theorem groupRows_keys (keys : A → Finset String) (rows : List A) :
    ∀ group ∈ groupRows keys rows, ∀ row ∈ group.2, keys row = group.1 := by
  have hfold : ∀ groups : List (Finset String × List A), (∀ group ∈ groups, ∀ row ∈ group.2, keys row = group.1) →
      ∀ group ∈ rows.foldl (fun groups row => addToGroup (keys row) row groups) groups, ∀ row ∈ group.2,
        keys row = group.1 := by
    induction rows with
    | nil => exact fun groups h => h
    | cons row rows ih => exact fun groups h => ih _ (addToGroup_keys h)
  exact hfold [] (by simp)

/-- Groups that agree in their keys and whose rows are related. -/
def GroupsRelated {A B : Type} (R : A → B → Prop) : List (Finset String × List A) → List (Finset String × List B) → Prop :=
  List.Forall₂ fun group group' => group.1 = group'.1 ∧ List.Forall₂ R group.2 group'.2

theorem GroupsRelated.addToGroup {A B : Type} {R : A → B → Prop} {keys : Finset String} {row : A} {row' : B} (hrow : R row row')
    {groups : List (Finset String × List A)} {groups' : List (Finset String × List B)} (h : GroupsRelated R groups groups') :
    GroupsRelated R (Tables.addToGroup keys row groups) (Tables.addToGroup keys row' groups') := by
  induction h with
  | nil => exact .cons ⟨rfl,.cons hrow .nil⟩ .nil
  | @cons group group' groups groups' hgroup hgroups ih =>
    rw [Tables.addToGroup, Tables.addToGroup, ← hgroup.1]
    split
    · exact .cons ⟨rfl,List.rel_append hgroup.2 (.cons hrow .nil)⟩ hgroups
    · exact .cons hgroup ih

theorem groupRows_related {B : Type} {R : A → B → Prop} {keys : A → Finset String}
    {keys' : B → Finset String} (hkeys : ∀ row row', R row row' → keys row = keys' row')
    {rows : List A} {rows' : List B} (h : List.Forall₂ R rows rows') :
    GroupsRelated R (groupRows keys rows) (groupRows keys' rows') := by
  have hfold : ∀ (groups : List (Finset String × List A)) (groups' : List (Finset String × List B)),
      GroupsRelated R groups groups' →
      GroupsRelated R (rows.foldl (fun groups row => addToGroup (keys row) row groups) groups)
        (rows'.foldl (fun groups row => addToGroup (keys' row) row groups) groups') := by
    induction h with
    | nil => exact fun groups groups' h => h
    | @cons row row' rows rows' hrow _ ih =>
      intro groups groups' hgroups
      apply ih
      dsimp only
      rw [hkeys row row' hrow]
      exact hgroups.addToGroup hrow
  exact hfold [] [] .nil

/-- The cells of a batch in the order of its statements. -/
def statementOrder {S : Type} (cells : List (StoredCells S)) : List (StoredCells S) :=
  (groupRows cellNames cells).flatMap (·.2)

theorem statementOrder_perm {S : Type} (cells : List (StoredCells S)) : (statementOrder cells).Perm cells :=
  groupRows_perm cellNames cells

theorem forall₂_exists {B C : Type} {R : A → B → Prop} {Q : B → C → Prop} {xs : List A}
    {zs : List C} :
    List.Forall₂ (fun x z => ∃ y, R x y ∧ Q y z) xs zs ↔ ∃ ys, List.Forall₂ R xs ys ∧ List.Forall₂ Q ys zs := by
  constructor
  · intro h
    induction h with
    | nil => exact ⟨[],.nil,.nil⟩
    | cons hstep _ ih =>
      obtain ⟨y,hR,hQ⟩ := hstep
      obtain ⟨ys,hRs,hQs⟩ := ih
      exact ⟨y :: ys,.cons hR hRs,.cons hQ hQs⟩
  · rintro ⟨ys,hRs,hQs⟩
    exact forall₂_comp hRs hQs fun x y z hR hQ => ⟨y,hR,hQ⟩

theorem storedRow_iff {data : RowData D T U} {cells : StoredCells S} :
    storedRow p relation table index data = .ok cells ↔
      ∃ row, normalizeRowInputs p table data = .ok row ∧ Accepted p relation table index row cells := by
  have hnamed : (cells.any fun cell => cell.1 = index) = true ↔ index ∈ cellNames cells := by
    rw [cellNames, List.mem_toFinset, List.any_eq_true]
    simp only [decide_eq_true_eq, List.mem_map]
  rw [storedRow]
  simp only [bind_eq_ok, storeRow]
  constructor
  · rintro ⟨cells',⟨row,hrow,hcells⟩,h⟩
    split at h
    swap
    · cases h
    rename_i hchecks
    cases h
    obtain ⟨hindex,hallowed⟩ := Bool.and_eq_true_iff.mp hchecks
    rw [hnamed, cellNames_of_executeRow hcells] at hindex
    exact ⟨row,hrow,hcells,hindex,hallowed⟩
  · rintro ⟨row,hrow,hcells,hindex,hallowed⟩
    rw [← cellNames_of_executeRow hcells, ← hnamed] at hindex
    exact ⟨cells,⟨row,hrow,hcells⟩,if_pos (Bool.and_eq_true_iff.mpr ⟨hindex,hallowed⟩)⟩

theorem accepted_names (row : List (Column × PyValue D T U)) (cells : StoredCells S)
    (h : Accepted p relation table index row cells) : columnNames row = cellNames cells :=
  (cellNames_of_executeRow h.1).symm

theorem accepted_unique {rows : List (List (Column × PyValue D T U))} {cells cells' : List (StoredCells S)}
    (h : List.Forall₂ (Accepted p relation table index) rows cells)
    (h' : List.Forall₂ (Accepted p relation table index) rows cells') : cells = cells' := by
  induction h generalizing cells' with
  | nil =>
    cases h'
    rfl
  | cons hcells _ ih =>
    cases h' with
    | cons hcells' htail =>
      rw [Except.ok.inj (hcells.1.symm.trans hcells'.1), ih htail]

theorem groups_eq {groups' : List (Finset String × List (StoredCells S))}
    {css : List (List (StoredCells S))}
    (h : GroupsRelated (Accepted p relation table index) groups groups')
    (hcss : List.Forall₂ (fun group cells => List.Forall₂ (Accepted p relation table index) group.2 cells ∧
      WritesOnce p relation index group.1 cells) groups css) :
    groups'.map (·.2) = css ∧ ∀ group ∈ groups', WritesOnce p relation index group.1 group.2 := by
  induction h generalizing css with
  | nil =>
    cases hcss
    exact ⟨rfl,nofun⟩
  | cons hgroup _ ih =>
    cases hcss with
    | cons hcells htail =>
      obtain ⟨hsame,honce⟩ := ih htail
      have hhead := accepted_unique hgroup.2 hcells.1
      refine ⟨by rw [List.map_cons, hhead, hsame],List.forall_mem_cons.mpr ⟨?_,honce⟩⟩
      rw [← hgroup.1, hhead]
      exact hcells.2

theorem groups_accepted {groups' : List (Finset String × List (StoredCells S))}
    (h : GroupsRelated (Accepted p relation table index) groups groups')
    (honce : ∀ group ∈ groups', WritesOnce p relation index group.1 group.2) :
    List.Forall₂ (fun group cells => List.Forall₂ (Accepted p relation table index) group.2 cells ∧
      WritesOnce p relation index group.1 cells) groups (groups'.map (·.2)) := by
  induction h with
  | nil => exact .nil
  | cons hgroup _ ih =>
    obtain ⟨hhead,htail⟩ := List.forall_mem_cons.mp honce
    rw [← hgroup.1] at hhead
    exact .cons ⟨hgroup.2,hhead⟩ (ih htail)

/-- A batch succeeds if and only if each row alone is accepted, it is not too long, and no statement writes a key
twice. -/
theorem batchUpsertRows_iff {rows : List (RowData D T U)} {chunkSize : ℕ} {content after : Content S} :
    (∃ total, batchUpsertRows p relation table [index] rows chunkSize content = (.ok total,after)) ↔
      ∃ cells, rows.mapM (storedRow p relation table index) = .ok cells ∧ rows.length ≤ chunkSize ∧
        (∀ group ∈ groupRows cellNames cells, WritesOnce p relation index group.1 group.2) ∧
        after = (coalescing p relation index).putAll (statementOrder cells) content := by
  unfold batchUpsertRows
  split
  · rename_i hnil
    subst hnil
    constructor
    · rintro ⟨total,h⟩
      exact ⟨[],rfl,Nat.zero_le _,nofun,(Prod.mk.inj h).2.symm⟩
    · rintro ⟨cells,hcells,-,-,rfl⟩
      cases hcells
      exact ⟨0,rfl⟩
  split
  · rename_i hlong
    refine iff_of_false (fun ⟨total,h⟩ => ?_) fun ⟨_,_,hshort,_⟩ => absurd hshort (by omega)
    cases h
  rename_i hshort
  -- each row is stored by way of its normalised row
  have hcells : ∀ cells, rows.mapM (storedRow p relation table index) = .ok cells ↔
      ∃ normalised, rows.mapM (normalizeRowInputs p table) = .ok normalised ∧
        List.Forall₂ (Accepted p relation table index) normalised cells := by
    intro cells
    rw [mapM_eq_ok]
    simp only [storedRow_iff, forall₂_exists, ← mapM_eq_ok]
  simp only [hcells]
  split
  · rename_i hnormalised
    refine iff_of_false (fun ⟨total,h⟩ => ?_) fun ⟨_,⟨normalised,hok,_⟩,_⟩ => ?_
    · cases h
    · rw [hnormalised] at hok
      cases hok
  · rename_i hindexes
    cases hindexes
  · rename_i normalised other hnormalised hindexes
    obtain rfl : index = other := (List.cons.inj hindexes).1
    rw [executeGroups_iff (groupRows_keys columnNames normalised)]
    constructor
    · rintro ⟨css,hcss,rfl⟩
      -- each row is in some group
      have haccepted : ∀ row ∈ normalised, ∃ cells, executeRow p row = .ok cells ∧
          Accepted p relation table index row cells := by
        intro row hrow
        have hmem := (groupRows_perm columnNames normalised).mem_iff.mpr hrow
        obtain ⟨group,hgroup,hrow⟩ := List.mem_flatMap.mp hmem
        obtain ⟨cells,_,hall,-⟩ := exists_of_forall₂ hcss hgroup
        obtain ⟨stored,_,hstored⟩ := exists_of_forall₂ hall hrow
        exact ⟨stored,hstored.1,hstored⟩
      obtain ⟨cells,-,hall⟩ := exists_mapM_eq_ok haccepted
      have hrelated := groupRows_related accepted_names hall
      obtain ⟨hsame,honce⟩ := groups_eq hrelated hcss
      refine ⟨cells,⟨normalised,hnormalised,hall⟩,by omega,honce,?_⟩
      rw [statementOrder, List.flatMap_def, hsame]
    · rintro ⟨cells,⟨normalised',hok,hall⟩,-,honce,rfl⟩
      obtain rfl := Except.ok.inj (hnormalised.symm.trans hok)
      refine ⟨_,groups_accepted (groupRows_related accepted_names hall) honce,?_⟩
      rw [statementOrder, List.flatMap_def]
  · rename_i hnone hone
    exact absurd rfl (hone index)

theorem upsertsInOrder_eq_ok {w : Writer S (TableRow S) (StoredCells S)} {rows : List (RowData D T U)}
    {content expected : Content S} :
    upsertsInOrder p relation w table index rows content = .ok expected ↔
      ∃ cells, rows.mapM (storedRow p relation table index) = .ok cells ∧ expected = w.putAll cells content := by
  induction rows generalizing content with
  | nil =>
    constructor
    · intro h
      exact ⟨[],rfl,(Except.ok.inj h).symm⟩
    · rintro ⟨cells,hcells,rfl⟩
      cases hcells
      rfl
  | cons data rows ih =>
    rw [upsertsInOrder, List.mapM_cons]
    simp only [bind_eq_ok, ih]
    constructor
    · rintro ⟨head,hhead,tail,htail,rfl⟩
      exact ⟨head :: tail,⟨head,hhead,tail,htail,rfl⟩,rfl⟩
    · rintro ⟨cells,⟨head,hhead,tail,htail,hcells⟩,rfl⟩
      cases hcells
      exact ⟨head,hhead,tail,htail,rfl⟩

end Groups

section LastValues
variable {D T U S : Type} {p : RowPackages D T U S} {relation : Relation S} [DecidableEq S] {index : String}

def lastValue (p : RowPackages D T U S) (name : String) (entries : List (StoredCells S)) : Option S :=
  entries.reverse.findSome? fun cells => (cells.lookup name).filter (· ≠ p.null)

def firstSupplies (name : String) (entries : List (StoredCells S)) : Bool :=
  entries.head?.any fun cells => (cells.lookup name).isSome

/-- Rows of one key in two orders: the last value for each column is the same. With a new key, a column that they supply
NULL for and nothing else gets NULL or its default by the first row alone. -/
def SettledAlike (p : RowPackages D T U S) (relation : Relation S) (index : String) (record : Option (TableRow S))
    (entries entries' : List (StoredCells S)) : Prop :=
  ∀ name ≠ index, lastValue p name entries = lastValue p name entries' ∧
    (record = none → lastValue p name entries = none → relation.serverDefault name ≠ p.null →
      firstSupplies name entries = firstSupplies name entries')

theorem lastValue_cons (name : String) (cells : StoredCells S) (entries : List (StoredCells S)) :
    lastValue p name (cells :: entries) = (lastValue p name entries).or ((cells.lookup name).filter (· ≠ p.null)) := by
  rw [lastValue, List.reverse_cons, List.findSome?_append]
  simp [lastValue]

theorem lastValue_eq_none_iff (name : String) {entries entries' : List (StoredCells S)} (h : entries.Perm entries') :
    lastValue p name entries = none ↔ lastValue p name entries' = none := by
  simp only [lastValue, List.findSome?_eq_none_iff, List.mem_reverse, h.mem_iff]

theorem foldl_merge (entries : List (StoredCells S)) (old : TableRow S) {name : String} (hname : name ≠ index) :
    entries.foldl (fun record cells => (coalescing p relation index).merge cells record) old name =
      (lastValue p name entries).getD (old name) := by
  induction entries generalizing old with
  | nil => rfl
  | cons cells entries ih =>
    rw [List.foldl_cons, ih, lastValue_cons]
    have hmerge : (coalescing p relation index).merge cells old name =
        ((cells.lookup name).filter (· ≠ p.null)).getD (old name) := if_neg hname
    rw [hmerge]
    cases lastValue p name entries <;> rfl

theorem foldl_merge_index (entries : List (StoredCells S)) (old : TableRow S) :
    entries.foldl (fun record cells => (coalescing p relation index).merge cells record) old index = old index := by
  induction entries generalizing old with
  | nil => rfl
  | cons cells entries ih =>
    rw [List.foldl_cons, ih]
    exact if_pos rfl

theorem foldl_merge_proposed (cells : StoredCells S) (entries : List (StoredCells S)) {name : String} (hname : name ≠ index) :
    entries.foldl (fun record cells => (coalescing p relation index).merge cells record) (proposed relation cells) name =
      (lastValue p name (cells :: entries)).getD
        (if firstSupplies name (cells :: entries) then p.null else relation.serverDefault name) := by
  rw [foldl_merge entries _ hname, lastValue_cons]
  cases lastValue p name entries with
  | some value => rfl
  | none =>
    change (cells.lookup name).getD (relation.serverDefault name) = _
    cases hlookup : cells.lookup name with
    | none =>
      have hfirst : firstSupplies name (cells :: entries) = false := by simp [firstSupplies, hlookup]
      rw [hfirst]
      rfl
    | some value =>
      have hfirst : firstSupplies name (cells :: entries) = true := by simp [firstSupplies, hlookup]
      rw [hfirst]
      by_cases hnull : value = p.null <;> simp [hnull, Option.filter]

/-- Two orders of the rows of a key leave the same record exactly when they settle each column alike. -/
theorem settled_eq_iff {entries entries' : List (StoredCells S)} (h : entries.Perm entries') {key : S}
    (hkey : ∀ cells ∈ entries, keyOf p relation index cells = some key) (record : Option (TableRow S)) :
    (coalescing p relation index).settled record entries = (coalescing p relation index).settled record entries' ↔
      SettledAlike p relation index record entries entries' := by
  have hvalues (base base' : String → S) : (∀ name ≠ index,
      (lastValue p name entries).getD (base name) = (lastValue p name entries').getD (base' name)) ↔
      ∀ name ≠ index, lastValue p name entries = lastValue p name entries' ∧
        (lastValue p name entries = none → base name = base' name) := by
    refine forall₂_congr fun name _ => ?_
    have hnone := lastValue_eq_none_iff (p := p) name h
    cases hleft : lastValue p name entries with
    | none => simp [hnone.mp hleft]
    | some value =>
      cases hright : lastValue p name entries' with
      | none =>
        rw [hnone.mpr hright] at hleft
        cases hleft
      | some value' => simp
  cases record with
  | some old =>
    rw [settled_some, settled_some, Option.some_inj]
    calc
      _ ↔ ∀ name ≠ index, (lastValue p name entries).getD (old name) = (lastValue p name entries').getD (old name) := by
        rw [funext_iff]
        constructor
        · intro heq name hname
          rw [← foldl_merge entries old hname, heq name, foldl_merge entries' old hname]
        · intro heq name
          by_cases hname : name = index
          · rw [hname, foldl_merge_index, foldl_merge_index]
          · rw [foldl_merge entries old hname, heq name hname, foldl_merge entries' old hname]
      _ ↔ _ := by
        rw [hvalues, SettledAlike]
        simp
  | none =>
    cases entries with
    | nil =>
      obtain rfl := h.nil_eq
      exact iff_of_true rfl fun name _ => ⟨rfl,fun _ _ _ => rfl⟩
    | cons cells entries =>
      cases entries' with
      | nil => exact absurd h.symm.nil_eq (List.cons_ne_nil _ _).symm
      | cons cells' entries' =>
        rw [settled_none_cons, settled_none_cons, settled_some, settled_some, Option.some_inj]
        have hindex : ∀ cells, keyOf p relation index cells = some key → proposed relation cells index = key := by
          intro cells hcells
          rw [keyOf] at hcells
          split at hcells
          · cases hcells
          · exact Option.some.inj hcells
        calc
          _ ↔ ∀ name ≠ index, (lastValue p name (cells :: entries)).getD
                (if firstSupplies name (cells :: entries) then p.null else relation.serverDefault name) =
              (lastValue p name (cells' :: entries')).getD
                (if firstSupplies name (cells' :: entries') then p.null else relation.serverDefault name) := by
            rw [funext_iff]
            constructor
            · intro heq name hname
              rw [← foldl_merge_proposed cells entries hname, ← foldl_merge_proposed cells' entries' hname]
              exact heq name
            · intro heq name
              by_cases hname : name = index
              · rw [hname, foldl_merge_index, foldl_merge_index]
                change proposed relation cells index = proposed relation cells' index
                rw [hindex cells (hkey _ List.mem_cons_self), hindex cells' (hkey _ (h.mem_iff.mpr List.mem_cons_self))]
              · change entries.foldl _ (proposed relation cells) name = entries'.foldl _ (proposed relation cells') name
                rw [foldl_merge_proposed cells entries hname, foldl_merge_proposed cells' entries' hname]
                exact heq name hname
          _ ↔ _ := by
            rw [hvalues, SettledAlike]
            refine forall₂_congr fun name _ => and_congr_right fun _ => ?_
            simp only [true_implies]
            refine imp_congr_right fun _ => ?_
            cases firstSupplies name (cells :: entries) <;> cases firstSupplies name (cells' :: entries') <;> simp
            exact eq_comm

end LastValues

section Batch
variable {D T U S : Type} (p : RowPackages D T U S) (relation : Relation S) [DecidableEq S]

theorem batchUpsertCommitted_ok {table : Table} {indexes : List String} {rows : List (RowData D T U)} {chunkSize : ℕ}
    {content after : Content S} {total : ℕ} :
    batchUpsertCommitted p relation table indexes rows chunkSize content = (.ok total,after) ↔
      batchUpsertRows p relation table indexes rows chunkSize content = (.ok total,after) := by
  rw [batchUpsertCommitted]
  obtain ⟨result,working⟩ := batchUpsertRows p relation table indexes rows chunkSize content
  cases result with
  | ok affected => exact Iff.rfl
  | error error =>
    refine iff_of_false (fun h => ?_) fun h => ?_
    · cases h
    · cases h

theorem batchUpsertCommitted_error {table : Table} {indexes : List String} {rows : List (RowData D T U)} {chunkSize : ℕ}
    {content : Content S}
    (h : ∀ total after, batchUpsertRows p relation table indexes rows chunkSize content ≠ (.ok total,after)) :
    ∃ error, batchUpsertCommitted p relation table indexes rows chunkSize content = (.error error,content) := by
  rw [batchUpsertCommitted]
  cases hresult : batchUpsertRows p relation table indexes rows chunkSize content with
  | mk result working =>
    cases result with
    | ok affected => exact absurd hresult (h affected working)
    | error error => exact ⟨error,rfl⟩

/-- A batch whose rows are all accepted does what they do one after another, NULL leaving a column of an existing row as
it is, if and only if it is not too long, no statement writes a key twice, and the statements settle each key as the list
does. -/
theorem upsertedInOrder_iff (table : Table) (index : String) (rows : List (RowData D T U)) (chunkSize : ℕ)
    (content : Content S) :
    UpsertedInOrder p relation (coalescing p relation index) table index rows chunkSize content ↔
      ∀ cells, rows.mapM (storedRow p relation table index) = .ok cells →
        rows.length ≤ chunkSize ∧ (∀ group ∈ groupRows cellNames cells, WritesOnce p relation index group.1 group.2) ∧
        ∀ key, SettledAlike p relation index (content.rows key)
          ((coalescing p relation index).keyed (some key) cells)
          ((coalescing p relation index).keyed (some key) (statementOrder cells)) := by
  rw [UpsertedInOrder]
  split
  · rename_i expected hexpected
    obtain ⟨cells,hcells,rfl⟩ := upsertsInOrder_eq_ok.mp hexpected
    have hsame : (coalescing p relation index).putAll cells content =
        (coalescing p relation index).putAll (statementOrder cells) content ↔
        ∀ key, SettledAlike p relation index (content.rows key) ((coalescing p relation index).keyed (some key) cells)
          ((coalescing p relation index).keyed (some key) (statementOrder cells)) := by
      rw [putAll_eq_iff _ (statementOrder_perm cells).symm]
      refine forall_congr' fun key => ?_
      have hkey : ∀ other ∈ (coalescing p relation index).keyed (some key) cells,
          keyOf p relation index other = some key :=
        fun other hother => of_decide_eq_true (List.mem_filter.mp hother).2
      exact settled_eq_iff ((statementOrder_perm cells).symm.filter _) hkey _
    calc
      _ ↔ ∃ total, batchUpsertCommitted p relation table [index] rows chunkSize content =
          (.ok total,(coalescing p relation index).putAll cells content) := by
        constructor
        · rintro ⟨⟨total,hok⟩,hcontent⟩
          exact ⟨total,Prod.ext hok hcontent⟩
        · rintro ⟨total,hresult⟩
          rw [hresult]
          exact ⟨⟨total,rfl⟩,rfl⟩
      _ ↔ _ := by
        simp only [batchUpsertCommitted_ok]
        rw [batchUpsertRows_iff]
        constructor
        · rintro ⟨other,hother,hshort,honce,hfinal⟩ cells' hcells'
          obtain rfl := Except.ok.inj (hcells.symm.trans hcells')
          obtain rfl := Except.ok.inj (hcells.symm.trans hother)
          exact ⟨hshort,honce,hsame.mp hfinal⟩
        · intro h
          obtain ⟨hshort,honce,hsettled⟩ := h cells hcells
          exact ⟨cells,hcells,hshort,honce,hsame.mpr hsettled⟩
  · rename_i error herror
    have hrejected : ∀ cells, rows.mapM (storedRow p relation table index) ≠ .ok cells := by
      intro cells hcells
      have hok : upsertsInOrder p relation (coalescing p relation index) table index rows content =
          .ok ((coalescing p relation index).putAll cells content) := upsertsInOrder_eq_ok.mpr ⟨cells,hcells,rfl⟩
      rw [herror] at hok
      cases hok
    have hfails : ∃ other, batchUpsertCommitted p relation table [index] rows chunkSize content = (.error other,content) := by
      apply batchUpsertCommitted_error
      intro total after hok
      obtain ⟨cells,hcells,-⟩ := batchUpsertRows_iff.mp ⟨total,hok⟩
      exact hrejected cells hcells
    obtain ⟨other,hother⟩ := hfails
    rw [hother]
    exact iff_of_true ⟨⟨other,rfl⟩,rfl⟩ fun cells hcells => absurd hcells (hrejected cells)

omit [DecidableEq S] in
variable {p} in
theorem cellNames_of_clauses {clauses : List (Column × BindParameter D T U)} {cells : StoredCells S} {error : WriteError}
    (h : (clauses.mapM fun clause => execute p error clause.1 clause.2) = .ok cells) :
    cellNames cells = (clauses.map (·.1.name)).toFinset := by
  have hall := mapM_eq_ok.mp h
  rw [cellNames]
  congr 1
  clear h
  induction hall with
  | nil => rfl
  | @cons clause cell _ _ hcell _ ih =>
    rw [List.map_cons, List.map_cons, ih, name_of_execute hcell]

/-- `insert_row` with upsert does to the table what its row does alone: the columns it supplies are updated, otherwise it
is inserted. -/
theorem insertRowUpsert_eq_put {table : Table} {index : String} {data : RowData D T U} {content after : Content S}
    (h : insertRowUpsert p relation table [index] data content = .ok after) :
    ∃ cells, insertRow p table data = .ok cells ∧ after = (supplying p relation index).put cells content := by
  rw [insertRowUpsert] at h
  obtain ⟨clauses,hclauses,h⟩ := bind_eq_ok.mp h
  dsimp only at h
  split at h
  swap
  · cases h
  split at h
  · cases h
  rename_i hothers
  obtain ⟨cells,hcells,h⟩ := bind_eq_ok.mp h
  obtain ⟨progress,hprogress,h⟩ := bind_eq_ok.mp h
  cases h
  refine ⟨cells,bind_eq_ok.mpr ⟨clauses,hclauses,hcells⟩,?_⟩
  have hnames := cellNames_of_clauses hcells
  have hset : ∀ set, some (excluded ((clauses.map (·.1.name)).toFinset.erase index)) = some set → ∀ old,
      set (proposed relation cells) old = (supplying p relation index).merge cells old := by
    intro set hset old
    cases hset
    rw [← hnames]
    exact excluded_eq_merge p relation index cells old
  have hempty : (⟨content,[],0⟩ : Progress S).Consistent := nofun
  obtain ⟨next,hnext,hput,-⟩ := onConflict_step .raised (w := supplying p relation index) rfl rfl hset nofun
    (onConflict_allowed hprogress) hempty fun _ _ _ => nofun
  obtain rfl := Except.ok.inj (hprogress.symm.trans hnext)
  exact hput

end Batch

section Wins

/-- Packages that bind integers and `None`. -/
def integerPackages : RowPackages Unit Unit Unit (Option ℤ) where
  printed _ := "object"
  repr _ := "object"
  int _ := none
  float _ := none
  uuid _ := none
  loads _ := none
  fromIsoformat _ := none
  dateFromIsoformat _ := none
  fromTimestamp _ := none
  midnight d := d
  dateOf t := t
  utc t := t
  bind _ _ value :=
    match value with
    | .json .none => some none
    | .json (.int n) => some (some n)
    | _ => none
  null := none

def winsTable : Table := ⟨"scores",[⟨"player",.integer,none⟩,⟨"wins",.integer,none⟩,⟨"losses",.integer,none⟩]⟩

/-- No defaults and no NOT NULL. -/
def winsRelation : Relation (Option ℤ) := ⟨fun _ => none,fun _ => false⟩

/-- Player 1 with five wins. -/
def winsContent : Content (Option ℤ) where
  rows key := if key = some 1 then some fun name => if name = "player" then some 1 else if name = "wins" then some 5 else none
    else none
  unkeyed := 0

def winsRow (player : ℤ) (wins : PyValue Unit Unit Unit) : RowData Unit Unit Unit :=
  [("player",.json (.int player)),("wins",wins)]

def winsAfter (rows : List (RowData Unit Unit Unit)) : Option (Option ℤ) :=
  ((batchUpsertCommitted integerPackages winsRelation winsTable ["player"] rows 1000 winsContent).2.rows (some 1)).map
    (· "wins")

theorem winsAfter_of_inOrder (wins : Option ℤ) {rows : List (RowData Unit Unit Unit)}
    (h : UpsertedInOrder integerPackages winsRelation (supplying integerPackages winsRelation "player") winsTable "player"
      rows 1000 winsContent) {expected : Content (Option ℤ)}
    (hexpected : upsertsInOrder integerPackages winsRelation (supplying integerPackages winsRelation "player") winsTable
      "player" rows winsContent = .ok expected)
    (hwins : (expected.rows (some 1)).map (· "wins") = some wins) : winsAfter rows = some wins := by
  rw [UpsertedInOrder, hexpected] at h
  rw [winsAfter, h.2, hwins]

theorem wins_put : ∃ after cells, insertRowUpsert integerPackages winsRelation winsTable ["player"]
      (winsRow 1 (.json (.int 6))) winsContent = .ok after ∧
    after = (supplying integerPackages winsRelation "player").put cells winsContent := by
  have hupsert : insertRowUpsert integerPackages winsRelation winsTable ["player"] (winsRow 1 (.json (.int 6)))
      winsContent = .ok _ := rfl
  obtain ⟨cells,-,hput⟩ := insertRowUpsert_eq_put integerPackages winsRelation hupsert
  exact ⟨_,cells,hupsert,hput⟩

/-- NULL does not overwrite; a key that one statement writes twice fails; a later row of an earlier group is overwritten. -/
theorem upserts_out_of_order :
    ¬ UpsertedInOrder integerPackages winsRelation (supplying integerPackages winsRelation "player") winsTable "player"
      [winsRow 1 .none] 1000 winsContent ∧
    ¬ UpsertedInOrder integerPackages winsRelation (supplying integerPackages winsRelation "player") winsTable "player"
      [winsRow 1 (.json (.int 6)),winsRow 1 (.json (.int 7))] 1000 winsContent ∧
    ¬ UpsertedInOrder integerPackages winsRelation (supplying integerPackages winsRelation "player") winsTable "player"
      [winsRow 2 (.json (.int 0)),winsRow 1 (.json (.int 6)) ++ [("losses",.json (.int 3))],winsRow 1 (.json (.int 7))]
      1000 winsContent := by
  refine ⟨fun h => ?_,fun h => ?_,fun h => ?_⟩
  · have hwins := winsAfter_of_inOrder none h rfl rfl
    revert hwins
    decide
  · have hwins := winsAfter_of_inOrder (some 7) h rfl rfl
    revert hwins
    decide
  · have hwins := winsAfter_of_inOrder (some 7) h rfl rfl
    revert hwins
    decide

end Wins
end Tables
end Allama
