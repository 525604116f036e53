import Allama.CsvTexts

/-! Tables that are written as HTML and read again. -/
namespace Allama
namespace TableTexts
section Scanning

def Scans (a : Text) (ts : List Token) : Prop := ∀ s, tokens .text (a ++ s) = (tokens .text s).map (ts ++ ·)

theorem Scans.nil : Scans [] [] := by
  intro s
  rw [List.nil_append]
  cases tokens .text s <;> rfl

theorem Scans.append {a b : Text} {ts us : List Token} (ha : Scans a ts) (hb : Scans b us) : Scans (a ++ b) (ts ++ us) := by
  intro s
  rw [List.append_assoc, ha, hb, Option.map_map]
  congr 1
  funext vs
  exact (List.append_assoc ts us vs).symm

theorem Scans.char {c : Char} (hopen : c ≠ '<') (href : c ≠ '&') : Scans [c] [.char c] := by
  intro s
  rw [List.singleton_append, tokens, if_neg hopen, if_neg href]
  rfl

theorem Scans.blanks (k : ℕ) : Scans (List.replicate k ' ') (List.replicate k (.char ' ')) := by
  induction k with
  | zero => exact Scans.nil
  | succ k ih => exact (Scans.char (by decide) (by decide)).append ih

theorem Scans.escapeChar (c : Char) : Scans (escapeChar c) [.char c] := by
  unfold TableTexts.escapeChar
  split
  · rename_i hc
    rw [hc]
    exact fun s => rfl
  · rename_i hamp
    split
    · rename_i hc
      rw [hc]
      exact fun s => rfl
    · rename_i hlt
      split
      · rename_i hc
        rw [hc]
        exact fun s => rfl
      · split
        · rename_i hc
          rw [hc]
          exact fun s => rfl
        · split
          · rename_i hc
            rw [hc]
            exact fun s => rfl
          · exact Scans.char hlt hamp

theorem Scans.escape (s : Text) : Scans (escape s) (s.map .char) := by
  induction s with
  | nil => exact Scans.nil
  | cons c s ih => exact (Scans.escapeChar c).append ih

theorem foldl_chars (rows : List (List Text)) (row : List Text) (s cell : Text) :
    (s.map Token.char).foldl htmlStep ⟨rows,row,some cell⟩ = ⟨rows,row,some (cell ++ s)⟩ := by
  induction s generalizing cell with
  | nil => rw [List.append_nil]; rfl
  | cons c s ih =>
    have hstep : htmlStep ⟨rows,row,some cell⟩ (.char c) = ⟨rows,row,some (cell ++ [c])⟩ := rfl
    rw [List.map_cons, List.foldl_cons, hstep, ih, List.append_assoc, List.singleton_append]

end Scanning

section Lines

/-- What a stretch of the text makes of the rows and the row that are read, between two cells. -/
abbrev Effect := List (List Text) × List Text → List (List Text) × List Text

def Does (a : Text) (f : Effect) : Prop :=
  ∃ ts, Scans a ts ∧ ∀ rows row, ts.foldl htmlStep ⟨rows,row,none⟩ = ⟨(f (rows,row)).1,(f (rows,row)).2,none⟩

theorem Does.append {a b : Text} {f g : Effect} (ha : Does a f) (hb : Does b g) : Does (a ++ b) (g ∘ f) := by
  obtain ⟨ts,hts,hf⟩ := ha
  obtain ⟨us,hus,hg⟩ := hb
  refine ⟨ts ++ us,hts.append hus,?_⟩
  intro rows row
  rw [List.foldl_append, hf, hg]
  rfl

theorem Does.newline : Does ['\n'] id := ⟨[.char '\n'],Scans.char (by decide) (by decide),fun _ _ => rfl⟩

def allEffects (l : List (Text × Effect)) : Effect := fun st => l.foldl (fun st p => p.2 st) st

theorem Does.join {l : List (Text × Effect)} (hne : l ≠ []) (h : ∀ p ∈ l, Does p.1 p.2) :
    Does (join ['\n'] (l.map Prod.fst)) (allEffects l) := by
  induction l with
  | nil => exact absurd rfl hne
  | cons p l ih =>
    cases l with
    | nil =>
      rw [List.map_singleton, join_singleton]
      exact h p List.mem_cons_self
    | cons q l =>
      rw [List.map_cons, List.map_cons, join_cons_cons, ← List.map_cons]
      have hrest := ih (List.cons_ne_nil q l) fun r hr => h r (List.mem_cons_of_mem p hr)
      exact (h p List.mem_cons_self).append (Does.newline.append hrest)

def putCell (s : Text) : Effect := fun st => (st.1,st.2 ++ [s])

def startRow : Effect := fun st => (st.1,[])

def endRow : Effect := fun st => (st.1 ++ [st.2],st.2)

theorem foldl_blanks (rows : List (List Text)) (row : List Text) (k : ℕ) :
    (List.replicate k (Token.char ' ')).foldl htmlStep ⟨rows,row,none⟩ = ⟨rows,row,none⟩ := by
  induction k with
  | zero => rfl
  | succ k ih =>
    rw [List.replicate_succ, List.foldl_cons]
    exact ih

theorem Does.cell {opened closed tag close : Text} (k : ℕ) (s : Text) (hopened : Scans opened [.tag tag])
    (hclosed : Scans closed [.tag close])
    (hopen : ∀ rows row, htmlStep ⟨rows,row,none⟩ (.tag tag) = ⟨rows,row,some []⟩)
    (hclose : ∀ rows row cell, htmlStep ⟨rows,row,some cell⟩ (.tag close) = ⟨rows,row ++ [cell],none⟩) :
    Does (List.replicate k ' ' ++ (opened ++ (escape s ++ closed))) (putCell s) := by
  refine ⟨_,(Scans.blanks k).append (hopened.append ((Scans.escape s).append hclosed)),?_⟩
  intro rows row
  rw [List.foldl_append, foldl_blanks, List.singleton_append, List.foldl_cons, hopen, List.foldl_append, foldl_chars,
    List.nil_append, List.foldl_cons, hclose]
  rfl

theorem Does.tag {opened name : Text} {f : Effect} (k : ℕ) (hscan : Scans opened [.tag name])
    (hf : ∀ rows row, htmlStep ⟨rows,row,none⟩ (.tag name) = ⟨(f (rows,row)).1,(f (rows,row)).2,none⟩) :
    Does (List.replicate k ' ' ++ opened) f := by
  refine ⟨_,(Scans.blanks k).append hscan,?_⟩
  intro rows row
  rw [List.foldl_append, foldl_blanks, List.foldl_cons, hf]
  rfl

theorem Does.skip {opened name : Text} (k : ℕ) (hscan : Scans opened [.tag name])
    (hf : ∀ st : HtmlState, htmlStep st (.tag name) = st) : Does (List.replicate k ' ' ++ opened) id :=
  Does.tag k hscan fun _ _ => hf _

theorem does_startRow : Does "    <tr>".toList startRow := by
  have hf : ∀ rows row, htmlStep ⟨rows,row,none⟩ (.tag "tr".toList) = ⟨(startRow (rows,row)).1,(startRow (rows,row)).2,none⟩ :=
    fun _ _ => rfl
  have hscan : Scans "<tr>".toList [.tag "tr".toList] := fun s => rfl
  exact Does.tag 4 hscan hf

theorem does_endRow : Does "    </tr>".toList endRow := by
  have hf : ∀ rows row, htmlStep ⟨rows,row,none⟩ (.tag "/tr".toList) = ⟨(endRow (rows,row)).1,(endRow (rows,row)).2,none⟩ :=
    fun _ _ => rfl
  have hscan : Scans "</tr>".toList [.tag "/tr".toList] := fun s => rfl
  exact Does.tag 4 hscan hf

theorem does_headerLine (key : Text) : Does (headerLine key) (putCell key) := by
  have hopen : ∀ rows row, htmlStep ⟨rows,row,none⟩ (.tag "th".toList) = ⟨rows,row,some []⟩ := fun _ _ => rfl
  have hclose : ∀ rows row cell, htmlStep ⟨rows,row,some cell⟩ (.tag "/th".toList) = ⟨rows,row ++ [cell],none⟩ :=
    fun _ _ _ => rfl
  have hblanks : "      <th>".toList = List.replicate 6 ' ' ++ "<th>".toList := by decide
  have hopened : Scans "<th>".toList [.tag "th".toList] := fun s => rfl
  have hclosed : Scans "</th>".toList [.tag "/th".toList] := fun s => rfl
  have hdoes := Does.cell 6 key hopened hclosed hopen hclose
  rw [← List.append_assoc, ← hblanks, ← List.append_assoc] at hdoes
  exact hdoes

variable {V : Type} (toStr : V → Text)

theorem does_cellLine (value : Option (Cell V)) : Does (cellLine toStr value) (putCell (htmlCell toStr value)) := by
  have hopen : ∀ rows row, htmlStep ⟨rows,row,none⟩ (.tag "td".toList) = ⟨rows,row,some []⟩ := fun _ _ => rfl
  have hclose : ∀ rows row cell, htmlStep ⟨rows,row,some cell⟩ (.tag "/td".toList) = ⟨rows,row ++ [cell],none⟩ :=
    fun _ _ _ => rfl
  have hblanks : "      <td>".toList = List.replicate 6 ' ' ++ "<td>".toList := by decide
  have hopened : Scans "<td>".toList [.tag "td".toList] := fun s => rfl
  have hclosed : Scans "</td>".toList [.tag "/td".toList] := fun s => rfl
  have hdoes := Does.cell 6 (htmlCell toStr value) hopened hclosed hopen hclose
  rw [← List.append_assoc, ← hblanks, ← List.append_assoc] at hdoes
  exact hdoes

def rowEffects (cells : List (Text × Text)) : List (Text × Effect) :=
  ("    <tr>".toList,startRow) :: cells.map (fun p => (p.1,putCell p.2)) ++ [("    </tr>".toList,endRow)]

/-- All lines, with what they do. -/
def htmlEffects (x : List (Item V)) : List (Text × Effect) :=
  [("<table>".toList,id),("  <thead>".toList,id)] ++ rowEffects ((headers x).map fun key => (headerLine key,key)) ++
  [("  </thead>".toList,id),("  <tbody>".toList,id)] ++
  x.flatMap (fun item => rowEffects ((headers x).map fun key =>
    (cellLine toStr (item.get? key),htmlCell toStr (item.get? key)))) ++
  [("  </tbody>".toList,id),("</table>".toList,id)]

theorem map_rowEffects (cells : List (Text × Text)) :
    (rowEffects cells).map Prod.fst = ["    <tr>".toList] ++ cells.map Prod.fst ++ ["    </tr>".toList] := by
  simp only [rowEffects, List.map_append, List.map_cons, List.map_map, List.map_nil, Function.comp_def, List.cons_append,
    List.nil_append]

theorem map_htmlEffects (x : List (Item V)) : (htmlEffects toStr x).map Prod.fst = htmlLines toStr x := by
  simp only [htmlEffects, htmlLines, List.map_append, List.map_flatMap, map_rowEffects, List.map_cons, List.map_nil, List.map_map,
    Function.comp_def, List.append_assoc, List.cons_append, List.nil_append]

theorem does_rowEffects {cells : List (Text × Text)} (h : ∀ p ∈ cells, Does p.1 (putCell p.2)) :
    ∀ p ∈ rowEffects cells, Does p.1 p.2 := by
  intro p hp
  rcases List.mem_append.mp hp with hp | hp
  · rcases List.mem_cons.mp hp with rfl | hp
    · exact does_startRow
    · obtain ⟨q,hq,rfl⟩ := List.mem_map.mp hp
      exact h q hq
  · rw [List.mem_singleton.mp hp]
    exact does_endRow

theorem does_htmlEffects (x : List (Item V)) : ∀ p ∈ htmlEffects toStr x, Does p.1 p.2 := by
  have htable : Does "<table>".toList id := by
    have hscan : Scans "<table>".toList [.tag "table".toList] := fun s => rfl
    exact Does.skip 0 hscan fun _ => rfl
  have htable' : Does "</table>".toList id := by
    have hscan : Scans "</table>".toList [.tag "/table".toList] := fun s => rfl
    exact Does.skip 0 hscan fun _ => rfl
  have hhead : Does "  <thead>".toList id := by
    have hscan : Scans "<thead>".toList [.tag "thead".toList] := fun s => rfl
    exact Does.skip 2 hscan fun _ => rfl
  have hhead' : Does "  </thead>".toList id := by
    have hscan : Scans "</thead>".toList [.tag "/thead".toList] := fun s => rfl
    exact Does.skip 2 hscan fun _ => rfl
  have hbody : Does "  <tbody>".toList id := by
    have hscan : Scans "<tbody>".toList [.tag "tbody".toList] := fun s => rfl
    exact Does.skip 2 hscan fun _ => rfl
  have hbody' : Does "  </tbody>".toList id := by
    have hscan : Scans "</tbody>".toList [.tag "/tbody".toList] := fun s => rfl
    exact Does.skip 2 hscan fun _ => rfl
  intro p hp
  simp only [htmlEffects, List.mem_append, List.mem_cons, List.not_mem_nil, or_false] at hp
  rcases hp with ((((rfl | rfl) | hp) | (rfl | rfl)) | hp) | (rfl | rfl)
  · exact htable
  · exact hhead
  · refine does_rowEffects ?_ p hp
    intro q hq
    obtain ⟨key,_,rfl⟩ := List.mem_map.mp hq
    exact does_headerLine key
  · exact hhead'
  · exact hbody
  · obtain ⟨item,_,hp⟩ := List.mem_flatMap.mp hp
    refine does_rowEffects ?_ p hp
    intro q hq
    obtain ⟨key,_,rfl⟩ := List.mem_map.mp hq
    exact does_cellLine toStr _
  · exact hbody'
  · exact htable'

theorem allEffects_append (l l' : List (Text × Effect)) (st : List (List Text) × List Text) :
    allEffects (l ++ l') st = allEffects l' (allEffects l st) := List.foldl_append

theorem allEffects_rowEffects (cells : List (Text × Text)) (rows : List (List Text)) (row : List Text) :
    allEffects (rowEffects cells) (rows,row) = (rows ++ [cells.map Prod.snd],cells.map Prod.snd) := by
  have hcells : ∀ (cells : List (Text × Text)) (row : List Text),
      allEffects (cells.map fun p => (p.1,putCell p.2)) (rows,row) = (rows,row ++ cells.map Prod.snd) := by
    intro cells
    induction cells with
    | nil =>
      intro row
      simp only [List.map_nil, List.append_nil]
      rfl
    | cons p cells ih =>
      intro row
      have hstep := ih (row ++ [p.2])
      rw [List.append_assoc, List.singleton_append] at hstep
      exact hstep
  have hrow := hcells cells []
  rw [List.nil_append] at hrow
  calc allEffects (rowEffects cells) (rows,row)
      = endRow (allEffects (cells.map fun p => (p.1,putCell p.2)) (rows,[])) := allEffects_append _ _ _
    _ = (rows ++ [cells.map Prod.snd],cells.map Prod.snd) := by rw [hrow]; rfl

theorem allEffects_rows {A : Type} (cells : A → List (Text × Text)) (l : List A) (rows : List (List Text)) (row : List Text) :
    (allEffects (l.flatMap fun a => rowEffects (cells a)) (rows,row)).1 = rows ++ l.map fun a => (cells a).map Prod.snd := by
  induction l generalizing rows row with
  | nil => rw [List.map_nil, List.append_nil]; rfl
  | cons a l ih =>
    rw [List.flatMap_cons, allEffects_append, allEffects_rowEffects, ih, List.append_assoc, List.map_cons, List.singleton_append]

theorem readHtml_formatHtml {x : List (Item V)} (hx : x ≠ []) : readHtml (formatHtml toStr x) =
    some (headers x,x.map fun item => (headers x).map fun key => htmlCell toStr (item.get? key)) := by
  have hempty : ¬ x.isEmpty = true := fun h => hx (List.isEmpty_iff.mp h)
  have hne : htmlEffects toStr x ≠ [] := by
    intro h
    rw [htmlEffects] at h
    cases h
  obtain ⟨ts,hscan,hdoes⟩ := Does.join hne (does_htmlEffects toStr x)
  rw [map_htmlEffects] at hscan
  have htokens : tokens .text (join ['\n'] (htmlLines toStr x)) = some ts := by
    have hall := hscan []
    rw [List.append_nil] at hall
    rw [hall]
    exact congrArg some (List.append_nil ts)
  have hrows : (allEffects (htmlEffects toStr x) ([],[])).1 =
      headers x :: x.map fun item => (headers x).map fun key => htmlCell toStr (item.get? key) := by
    have hid : ∀ (a b : Text) st, allEffects [(a,id),(b,id)] st = st := fun _ _ _ => rfl
    have hheader : ((headers x).map fun key => (headerLine key,key)).map Prod.snd = headers x := by
      rw [List.map_map]
      exact List.map_id _
    unfold htmlEffects
    rw [allEffects_append, allEffects_append, allEffects_append, allEffects_append, hid, hid, hid, allEffects_rowEffects,
      allEffects_rows, hheader]
    simp only [List.nil_append, List.singleton_append, List.map_map, Function.comp_def]
  rw [readHtml, formatHtml, if_neg hempty, htokens, Option.bind_some, hdoes, hrows]
  rfl

theorem html_faithful {x : List (Item V)} (hx : x ≠ []) : Faithful toStr x (readHtml (formatHtml toStr x)) := by
  refine ⟨_,readHtml_formatHtml toStr hx,?_⟩
  rw [List.forall₂_map_right_iff, List.forall₂_same]
  intro item _
  rw [List.forall₂_map_right_iff, List.forall₂_same]
  intro key _ value hvalue
  rw [hvalue]
  rfl

end Lines
end TableTexts
end Allama
