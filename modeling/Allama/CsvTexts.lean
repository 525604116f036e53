import Allama.TableTexts

/-! Tables that are written as CSV and read again. -/
namespace Allama
namespace TableTexts
section Fields
variable (rows : List (List Text)) (row : List Text)

theorem isSpecial_iff {c : Char} : isSpecial c = true ↔ c = ',' ∨ c = '"' ∨ c = '\r' ∨ c = '\n' := by
  simp only [isSpecial, Bool.or_eq_true, decide_eq_true_eq, or_assoc]

theorem isNewline_iff {c : Char} : isNewline c = true ↔ c = '\r' ∨ c = '\n' := by
  simp only [isNewline, Bool.or_eq_true, decide_eq_true_eq]

theorem csvStep_inField {c : Char} (hc : isSpecial c = false) (field : Text) :
    csvStep ⟨.inField,rows,row,field⟩ c = ⟨.inField,rows,row,field ++ [c]⟩ := by
  have hne : ¬ isSpecial c = true := Bool.eq_false_iff.mp hc
  simp only [isSpecial_iff, not_or] at hne
  have hnewline : ¬ isNewline c = true := by
    rw [isNewline_iff, not_or]
    exact ⟨hne.2.2.1,hne.2.2.2⟩
  simp only [csvStep, if_neg hnewline, if_neg hne.1, CsvState.add]

theorem foldl_inField {s : Text} (hs : s.any isSpecial = false) (field : Text) :
    s.foldl csvStep ⟨.inField,rows,row,field⟩ = ⟨.inField,rows,row,field ++ s⟩ := by
  induction s generalizing field with
  | nil => rw [List.foldl_nil, List.append_nil]
  | cons c s ih =>
    rw [List.any_cons, Bool.or_eq_false_iff] at hs
    rw [List.foldl_cons, csvStep_inField rows row hs.1, ih hs.2, List.append_assoc, List.singleton_append]

theorem foldl_doubled (s field : Text) :
    (doubled s).foldl csvStep ⟨.inQuotedField,rows,row,field⟩ = ⟨.inQuotedField,rows,row,field ++ s⟩ := by
  induction s generalizing field with
  | nil => simp only [doubled, List.flatMap_nil, List.foldl_nil, List.append_nil]
  | cons c s ih =>
    rw [doubled, List.flatMap_cons, List.foldl_append]
    have hstep : (if c = '"' then ['"','"'] else [c]).foldl csvStep ⟨.inQuotedField,rows,row,field⟩ =
        ⟨.inQuotedField,rows,row,field ++ [c]⟩ := by
      split
      · rename_i hc
        rw [hc]
        rfl
      · rename_i hc
        simp only [List.foldl_cons, List.foldl_nil, csvStep, if_neg hc, CsvState.add]
    rw [hstep]
    have hrest := ih (field ++ [c])
    rw [doubled] at hrest
    rw [hrest, List.append_assoc, List.singleton_append]

def CsvMode.isStart : CsvMode → Bool
  | .startRecord | .startField => true
  | _ => false

theorem CsvMode.isStart_iff {mode : CsvMode} : mode.isStart = true ↔ mode = .startRecord ∨ mode = .startField := by
  cases mode <;> decide

theorem foldl_csvField {mode : CsvMode} (hmode : mode.isStart = true) (s : Text) :
    ∃ mode', (csvField s).foldl csvStep ⟨mode,rows,row,[]⟩ = ⟨mode',rows,row,s⟩ ∧
      (mode' = .quoteInQuotedField ∨ mode' = .inField ∨ s = [] ∧ mode' = mode) := by
  unfold csvField
  split
  · -- in quotes
    have hquote : csvStep ⟨mode,rows,row,[]⟩ '"' = ⟨.inQuotedField,rows,row,[]⟩ := by
      rcases CsvMode.isStart_iff.mp hmode with rfl | rfl <;> rfl
    refine ⟨.quoteInQuotedField,?_,.inl rfl⟩
    rw [List.foldl_cons, hquote, List.foldl_append, foldl_doubled]
    rfl
  · rename_i hspecial
    cases s with
    | nil => exact ⟨mode,rfl,.inr (.inr ⟨rfl,rfl⟩)⟩
    | cons c s =>
      have hall := Bool.eq_false_iff.mpr hspecial
      rw [List.any_cons, Bool.or_eq_false_iff] at hall
      have hne : ¬ isSpecial c = true := Bool.eq_false_iff.mp hall.1
      simp only [isSpecial_iff, not_or] at hne
      have hnewline : ¬ isNewline c = true := by
        rw [isNewline_iff, not_or]
        exact ⟨hne.2.2.1,hne.2.2.2⟩
      have hstart : csvStep ⟨mode,rows,row,[]⟩ c = ⟨.inField,rows,row,[c]⟩ := by
        rcases CsvMode.isStart_iff.mp hmode with rfl | rfl
        · simp only [csvStep, csvRecord, csvStart, if_neg hnewline, if_neg hne.1, if_neg hne.2.1, CsvState.add, List.nil_append]
        · simp only [csvStep, csvStart, if_neg hnewline, if_neg hne.1, if_neg hne.2.1, CsvState.add, List.nil_append]
      refine ⟨.inField,?_,.inr (.inl rfl)⟩
      rw [List.foldl_cons, hstart, foldl_inField rows row hall.2, List.singleton_append]

theorem foldl_comma {mode : CsvMode} (hmode : mode.isStart = true) (s rest : Text) :
    (csvField s ++ ',' :: rest).foldl csvStep ⟨mode,rows,row,[]⟩ = rest.foldl csvStep ⟨.startField,rows,row ++ [s],[]⟩ := by
  obtain ⟨mode',hfold,hmode'⟩ := foldl_csvField rows row hmode s
  have hstep : csvStep ⟨mode',rows,row,s⟩ ',' = ⟨.startField,rows,row ++ [s],[]⟩ := by
    rcases hmode' with rfl | rfl | ⟨rfl,rfl⟩
    · rfl
    · rfl
    · rcases CsvMode.isStart_iff.mp hmode with rfl | rfl <;> rfl
  rw [List.foldl_append, hfold, List.foldl_cons, hstep]

theorem foldl_end {mode : CsvMode} (hmode : mode.isStart = true) (s rest : Text) (h : s ≠ [] ∨ mode = .startField) :
    (csvField s ++ '\r' :: '\n' :: rest).foldl csvStep ⟨mode,rows,row,[]⟩ =
      rest.foldl csvStep ⟨.startRecord,rows ++ [row ++ [s]],[],[]⟩ := by
  obtain ⟨mode',hfold,hmode'⟩ := foldl_csvField rows row hmode s
  have hstep : csvStep (csvStep ⟨mode',rows,row,s⟩ '\r') '\n' = ⟨.startRecord,rows ++ [row ++ [s]],[],[]⟩ := by
    rcases hmode' with rfl | rfl | ⟨rfl,rfl⟩
    · rfl
    · rfl
    · rcases h with hne | rfl
      · exact absurd rfl hne
      · rfl
  rw [List.foldl_append, hfold, List.foldl_cons, List.foldl_cons, hstep]

theorem foldl_fields (s : Text) (fields : List Text) (rest : Text) :
    (join [','] ((s :: fields).map csvField) ++ '\r' :: '\n' :: rest).foldl csvStep ⟨.startField,rows,row,[]⟩ =
      rest.foldl csvStep ⟨.startRecord,rows ++ [row ++ s :: fields],[],[]⟩ := by
  induction fields generalizing row s with
  | nil =>
    rw [List.map_singleton, join_singleton]
    exact foldl_end rows row rfl s rest (.inr rfl)
  | cons t fields ih =>
    have hjoin : join [','] ((s :: t :: fields).map csvField) ++ '\r' :: '\n' :: rest =
        csvField s ++ ',' :: (join [','] ((t :: fields).map csvField) ++ '\r' :: '\n' :: rest) := by
      rw [List.map_cons, List.map_cons, join_cons_cons, ← List.map_cons, List.append_assoc, List.append_assoc]
      rfl
    rw [hjoin, foldl_comma rows row rfl, ih, List.append_assoc, List.singleton_append]

theorem foldl_csvRow {fields : List Text} (hne : fields ≠ []) (rest : Text) :
    (csvRow fields ++ rest).foldl csvStep ⟨.startRecord,rows,[],[]⟩ = rest.foldl csvStep ⟨.startRecord,rows ++ [fields],[],[]⟩ := by
  cases fields with
  | nil => exact absurd rfl hne
  | cons s fields =>
    cases fields with
    | nil =>
      by_cases hs : s = []
      · rw [hs]
        rfl
      · have hrow : csvRow [s] ++ rest = csvField s ++ '\r' :: '\n' :: rest := by
          have hblank : ¬ [s] = [[]] := fun h => hs (List.cons.inj h).1
          rw [csvRow, if_neg hblank, List.map_singleton, join_singleton, List.append_assoc]
          rfl
        rw [hrow, foldl_end rows [] rfl s rest (.inl hs), List.nil_append]
    | cons t fields =>
      have hblank : ¬ s :: t :: fields = [[]] := fun h => by cases (List.cons.inj h).2
      have hrow : csvRow (s :: t :: fields) ++ rest =
          csvField s ++ ',' :: (join [','] ((t :: fields).map csvField) ++ '\r' :: '\n' :: rest) := by
        rw [csvRow, if_neg hblank, List.map_cons, List.map_cons, join_cons_cons, ← List.map_cons, List.append_assoc,
          List.append_assoc, List.append_assoc]
        rfl
      rw [hrow, foldl_comma rows [] rfl, foldl_fields]
      rfl

end Fields

theorem foldl_csvRows {α : Type} {fields : α → List Text} (hne : ∀ a, fields a ≠ []) (l : List α) (rows : List (List Text)) :
    (l.flatMap fun a => csvRow (fields a)).foldl csvStep ⟨.startRecord,rows,[],[]⟩ = ⟨.startRecord,rows ++ l.map fields,[],[]⟩ := by
  induction l generalizing rows with
  | nil => rw [List.map_nil, List.append_nil]; rfl
  | cons a l ih =>
    rw [List.flatMap_cons, foldl_csvRow rows (hne a), ih, List.map_cons, List.append_assoc, List.singleton_append]

section Tables
variable {V : Type} (toStr : V → Text)

theorem readCsv_formatCsv {x : List (Item V)} (hx : x ≠ []) (hne : headers x ≠ []) : readCsv (formatCsv toStr x) =
    some (headers x,x.map fun item => (headers x).map fun key => csvCell toStr (item.get? key)) := by
  have hfields : ∀ item : Item V, ((headers x).map fun key => csvCell toStr (item.get? key)) ≠ [] :=
    fun item h => hne (List.map_eq_nil_iff.mp h)
  have hempty : ¬ x.isEmpty = true := fun h => hx (List.isEmpty_iff.mp h)
  rw [readCsv, formatCsv, if_neg hempty, foldl_csvRow [] hne, foldl_csvRows hfields]
  rfl

theorem blankNone_eq_iff (value : Cell V) : blankNone toStr (some value) = value.str toStr ↔ value ≠ .none := by
  cases value with
  | none => exact ⟨fun h => (by cases h),fun h => absurd rfl h⟩
  | text s => exact ⟨fun _ h => (by cases h),fun _ => rfl⟩
  | other v => exact ⟨fun _ h => (by cases h),fun _ => rfl⟩

/-- What is read is faithful if and only if no value is `None`. -/
theorem csv_faithful_iff {x : List (Item V)} (hx : x ≠ []) (hne : headers x ≠ []) :
    Faithful toStr x (readCsv (formatCsv toStr x)) ↔ NoneFree x := by
  have hcell : ∀ (item : Item V) key, (∀ value, item.get? key = some value → csvCell toStr (item.get? key) = value.str toStr) ↔
      item.get? key ≠ some .none := by
    intro item key
    unfold csvCell
    cases item.get? key with
    | none => exact ⟨fun _ h => (by cases h),fun _ _ h => (by cases h)⟩
    | some value =>
      rw [ne_eq, Option.some.injEq, ← ne_eq, ← blankNone_eq_iff toStr]
      exact ⟨fun h => h value rfl,fun h v hv => Option.some.inj hv ▸ h⟩
  have hrow : ∀ item : Item V, List.Forall₂ (fun key cell => ∀ value, item.get? key = some value → cell = value.str toStr)
      (headers x) ((headers x).map fun key => csvCell toStr (item.get? key)) ↔
      ∀ key ∈ headers x, item.get? key ≠ some .none := by
    intro item
    rw [List.forall₂_map_right_iff, List.forall₂_same]
    exact forall₂_congr fun key _ => hcell item key
  unfold Faithful
  rw [readCsv_formatCsv toStr hx hne]
  constructor
  · rintro ⟨rows,hrows,hfaithful⟩
    obtain ⟨-,rfl⟩ := Prod.mk.inj (Option.some.inj hrows)
    rw [List.forall₂_map_right_iff, List.forall₂_same] at hfaithful
    exact fun item hitem => (hrow item).mp (hfaithful item hitem)
  · intro hfree
    refine ⟨_,rfl,?_⟩
    rw [List.forall₂_map_right_iff, List.forall₂_same]
    exact fun item hitem => (hrow item).mpr (hfree item hitem)

end Tables
end TableTexts
end Allama
