import Allama.Backtracking
import Allama.Identifiers

/-! Templated strings (`expressions/eval.py`, `expressions/patterns.py`): where a template ends, and what is
put in its place. -/
namespace Allama
open Backtracking

/-- The characters of `\s` in a pattern for `str`. -/
def spaceCodes : List ℕ :=
  [0x9,0xa,0xb,0xc,0xd,0x1c,0x1d,0x1e,0x1f,0x20,0x85,0xa0,0x1680,0x2000,0x2001,0x2002,0x2003,0x2004,
    0x2005,0x2006,0x2007,0x2008,0x2009,0x200a,0x2028,0x2029,0x202f,0x205f,0x3000]

def isSpace (c : Char) : Bool := spaceCodes.contains c.toNat

def openMark : Text := "$\x7b\x7b".toList

def closeMark : Text := "\x7d\x7d".toList

/-- `\s*}}`. -/
def templateEnd : Text → Option Text := greedyStar isSpace (literal closeMark some)

/-- `TEMPLATE_STRING` at the start of a text: the group `expr` and the text after the template. -/
def templateAt : Text → Option (Text × Text) :=
  literal openMark (greedyStar isSpace (lazyPlus (fun _ => true) templateEnd))

def segments : Text → List (Piece Char Text) := pieces templateAt 0

/-- `TEMPLATE_STRING.findall(line)`: the groups `template` and `expr` of every match. -/
def findall (line : Text) : List (Text × Text) :=
  (segments line).filterMap fun
    | .item _ => none
    | .hit template expr => some (template,expr)

/-- The values of Python that `_eval_templated_obj_rec` tells apart. -/
inductive PyObject (V : Type)
  | str (s : Text)
  | list (items : List (PyObject V))
  | dict (items : List (PyObject V × PyObject V))
  | other (v : V)

/-- What the evaluation of templates asks of the interpreter, for one operand. -/
structure Evaluation (E V : Type) where
  /-- `Expression(expr, operand=operand).result()`. -/
  result : Text → Except E (PyObject V)
  /-- `str(value)` where `value` is no `str`; `none` when it raises. -/
  render : PyObject V → Option Text
  /-- `d[key] = value`. -/
  setItem : List (PyObject V × PyObject V) → PyObject V → PyObject V →
    Except E (List (PyObject V × PyObject V))

inductive TemplateError (E : Type)
  /-- `Template expression {template!r} does not match expected pattern. ` -/
  | unmatched (template : Text)
  /-- `Error evaluating str expression: {expr!r}` -/
  | valueError (expr : Text)
  | raised (error : E)

section
variable {E V : Type} (ev : Evaluation E V)

def Evaluation.str : PyObject V → Option Text
  | .str s => some s
  | value => ev.render value

/-- `TemplateExpression(template, operand=operand).result()`. -/
def templateExpression (template : Text) : Except (TemplateError E) (PyObject V) :=
  match templateAt template with
  | none => .error (.unmatched template)
  | some (expr,_) => (ev.result expr).mapError .raised

def evalExpressionOp (template : Text) : Except (TemplateError E) Text := do
  let result ← templateExpression ev template
  match ev.str result with
  | some s => .ok s
  | none => .error (.valueError template)

/-- What stands between the templates, with the text of `f` in the place of each template. -/
def substitute {ε : Type} (f : Text → Text → Except ε Text) : List (Piece Char Text) → Except ε Text
  | [] => .ok []
  | .item c :: ps => do
    let rest ← substitute f ps
    .ok (c :: rest)
  | .hit template expr :: ps => do
    let text ← f template expr
    let rest ← substitute f ps
    .ok (text ++ rest)

/-- `TEMPLATE_STRING.sub(f, line)`. -/
def sub {ε : Type} (f : Text → Except ε Text) (line : Text) : Except ε Text :=
  substitute (fun template _ => f template) (segments line)

def isTemplateOnly (template : Text) : Bool :=
  openMark.isPrefixOf template && closeMark.isSuffixOf template

/-- `operator` of `eval_templated_object`. -/
def operator (line : Text) : Except (TemplateError E) (PyObject V) :=
  if isTemplateOnly line && (findall line).length = 1 then templateExpression ev line
  else (sub (evalExpressionOp ev) line).map .str

section
variable (operator : Text → Except (TemplateError E) (PyObject V))

/-- `operator(k) if isinstance(k, str) else k`. -/
def evalKey : PyObject V → Except (TemplateError E) (PyObject V)
  | .str s => operator s
  | k => .ok k

mutual

def evalTemplatedObjRec : PyObject V → Except (TemplateError E) (PyObject V)
  | .str s => operator s
  | .list items => (evalItems items).map .list
  | .dict items => (evalEntries items []).map .dict
  | .other v => .ok (.other v)

def evalItems : List (PyObject V) → Except (TemplateError E) (List (PyObject V))
  | [] => .ok []
  | item :: items => do
    let value ← evalTemplatedObjRec item
    let values ← evalItems items
    .ok (value :: values)

/-- The entries after those of `done`, which are in the dict that the comprehension builds. -/
def evalEntries : List (PyObject V × PyObject V) → List (PyObject V × PyObject V) →
    Except (TemplateError E) (List (PyObject V × PyObject V))
  | [], done => .ok done
  | (k,v) :: items, done => do
    let key ← evalKey operator k
    let value ← evalTemplatedObjRec v
    let done ← (ev.setItem done key value).mapError .raised
    evalEntries items done

end
end

def evalTemplatedObject (obj : PyObject V) : Except (TemplateError E) (PyObject V) :=
  evalTemplatedObjRec ev (operator ev) obj

def insertion (template expr : Text) : Except (TemplateError E) Text := do
  let value ← (ev.result expr).mapError .raised
  match ev.str value with
  | some s => .ok s
  | none => .error (.valueError template)

/-- What a templated string stands for: the value of its expression where it is one template as a whole,
otherwise itself with a text in the place of each template. -/
def specified (line : Text) : Except (TemplateError E) (PyObject V) :=
  match segments line with
  | [.hit _ expr] => (ev.result expr).mapError .raised
  | ps => (substitute (insertion ev) ps).map .str

end

theorem space_ne_brace {c : Char} (h : isSpace c = true) : c ≠ '}' := by
  rintro rfl
  exact absurd h (by decide)

theorem templateEnd_eq_some {s r : Text} :
    templateEnd s = some r ↔ ∃ w, s = w ++ (closeMark ++ r) ∧ ∀ c ∈ w, isSpace c = true := by
  unfold templateEnd
  rw [greedyStar_eq_some]
  constructor
  · rintro ⟨w,t,rfl,hw,ht,_⟩
    obtain ⟨r',rfl,hr⟩ := literal_eq_some.mp ht
    exact ⟨w,by rw [Option.some.inj hr],hw⟩
  · rintro ⟨w,rfl,hw⟩
    refine ⟨w,closeMark ++ r,rfl,hw,literal_append ..,?_⟩
    intro u t hs hu hl
    rcases List.append_eq_append_iff.mp hs with ⟨x,rfl,hx⟩ | ⟨x,rfl,_⟩
    · cases x with
      | nil => simp at hl
      | cons c x =>
        have hc : '}' = c := (List.cons.inj hx).1
        exact absurd hc.symm (space_ne_brace (hu c (by simp)))
    · rw [List.length_append] at hl
      omega

theorem templateEnd_append {s r : Text} (h : templateEnd s = some r) (z : Text) :
    templateEnd (s ++ z) = some (r ++ z) := by
  obtain ⟨w,rfl,hw⟩ := templateEnd_eq_some.mp h
  exact templateEnd_eq_some.mpr ⟨w,by simp,hw⟩

theorem templateEnd_append_eq_none {s z : Text} (h : templateEnd (s ++ z) = none) :
    templateEnd s = none := by
  cases hs : templateEnd s with
  | none => rfl
  | some r =>
    rw [templateEnd_append hs] at h
    cases h

theorem lazyPlus_append_eq_none {s z : Text}
    (h : lazyPlus (fun _ => true) templateEnd (s ++ z) = none) :
    lazyPlus (fun _ => true) templateEnd s = none := by
  rw [lazyPlus_eq_none] at h ⊢
  intro u t hs hne hu
  apply templateEnd_append_eq_none (z := z)
  exact h u (t ++ z) (by rw [hs, List.append_assoc]) hne hu

/-- The parts of a template: white space, an expression that no earlier `}}` cuts short, and the end. -/
theorem templateAt_eq_some {s e r : Text} :
    templateAt s = some (e,r) ↔ ∃ w t, s = openMark ++ (w ++ (e ++ t)) ∧ (∀ c ∈ w, isSpace c = true) ∧
      e ≠ [] ∧ templateEnd t = some r ∧
      (∀ v x, e = v ++ x → v ≠ [] → x ≠ [] → templateEnd (x ++ t) = none) ∧
      ∀ u t', w ++ (e ++ t) = u ++ t' → (∀ c ∈ u, isSpace c = true) → w.length < u.length →
        lazyPlus (fun _ => true) templateEnd t' = none := by
  unfold templateAt
  rw [literal_eq_some]
  constructor
  · rintro ⟨s',rfl,hs⟩
    obtain ⟨w,t',rfl,hw,ht,hm⟩ := greedyStar_eq_some.mp hs
    obtain ⟨t,rfl,hne,_,hend,hshort⟩ := lazyPlus_eq_some.mp ht
    exact ⟨w,t,rfl,hw,hne,hend,hshort,hm⟩
  · rintro ⟨w,t,rfl,hw,hne,hend,hshort,hm⟩
    refine ⟨w ++ (e ++ t),rfl,greedyStar_eq_some.mpr ⟨w,e ++ t,rfl,hw,?_,hm⟩⟩
    exact lazyPlus_eq_some.mpr ⟨t,rfl,hne,by simp,hend,hshort⟩

theorem templateAt_consumes : Consumes templateAt := by
  intro s e r h
  obtain ⟨w,t,rfl,_,_,hend,_⟩ := templateAt_eq_some.mp h
  obtain ⟨w',rfl,_⟩ := templateEnd_eq_some.mp hend
  exact ⟨openMark ++ (w ++ (e ++ (w' ++ closeMark))),by simp [openMark],by simp⟩

theorem templateAt_text {u e r : Text} (h : templateAt (u ++ r) = some (e,r)) :
    templateAt u = some (e,[]) := by
  obtain ⟨w,t,hs,hw,hne,hend,hshort,hm⟩ := templateAt_eq_some.mp h
  obtain ⟨w',rfl,hw'⟩ := templateEnd_eq_some.mp hend
  have hu : u = openMark ++ (w ++ (e ++ (w' ++ closeMark))) := by
    have hs' : u ++ r = openMark ++ (w ++ (e ++ (w' ++ closeMark))) ++ r := by simpa using hs
    exact List.append_cancel_right hs'
  refine templateAt_eq_some.mpr ⟨w,w' ++ closeMark,hu,hw,hne,?_,?_,?_⟩
  · exact templateEnd_eq_some.mpr ⟨w',by simp,hw'⟩
  · intro v x he hv hx
    apply templateEnd_append_eq_none (z := r)
    simpa using hshort v x he hv hx
  · intro v t' hv hspace hl
    apply lazyPlus_append_eq_none (z := r)
    apply hm v (t' ++ r) _ hspace hl
    rw [← List.append_assoc v, ← hv]
    simp

/-- Where a later template ends, a text that starts with `${{` starts with a template. -/
theorem templateAt_isSome {x l u e r : Text} (hx : x ≠ []) (hs : openMark ++ l = x ++ (u ++ r))
    (h : templateAt (u ++ r) = some (e,r)) : (templateAt (openMark ++ l)).isSome := by
  obtain ⟨w,t,hu,_,hne,hend,_⟩ := templateAt_eq_some.mp h
  rw [hu] at hs
  rw [Option.isSome_iff_ne_none, templateAt, literal_append]
  intro hnone
  have hlazy := greedyStar_eq_none.mp hnone [] l rfl (by simp)
  -- the expression may reach as far as the later template does
  obtain ⟨y,hy⟩ : ∃ y, l = y ++ t ∧ y ≠ [] := by
    have hl : l = (x ++ (openMark ++ (w ++ e))).drop 3 ++ t := by
      have hd := congrArg (List.drop 3) hs
      have hx3 : 3 ≤ (x ++ (openMark ++ (w ++ e))).length := by
        simp [openMark]
        omega
      rw [← List.drop_append_of_le_length hx3]
      simpa [openMark] using hd
    refine ⟨_,hl,?_⟩
    have := List.length_pos_iff.mpr hx
    intro hnil
    have := congrArg List.length hnil
    simp [openMark] at this
    omega
  have := lazyPlus_eq_none.mp hlazy y t hy.1 hy.2 (by simp)
  rw [hend] at this
  cases this

theorem segments_of_templateAt {u r e : Text} (h : templateAt (u ++ r) = some (e,r)) :
    segments (u ++ r) = .hit u e :: segments r := by
  apply pieces_hit templateAt _ h
  rintro rfl
  obtain ⟨v,hv,hr⟩ := templateAt_consumes _ _ _ h
  exact hv (by simpa using hr)

theorem text_segments (line : Text) : (segments line).flatMap Piece.text = line :=
  text_pieces templateAt_consumes line

theorem templateAt_of_mem {line u e : Text} (h : .hit u e ∈ segments line) :
    templateAt u = some (e,[]) := by
  obtain ⟨_,_,_,ht⟩ := hit_of_mem_pieces templateAt_consumes h
  exact templateAt_text ht

theorem mem_findall {line u e : Text} : (u,e) ∈ findall line ↔ .hit u e ∈ segments line := by
  unfold findall
  rw [List.mem_filterMap]
  constructor
  · rintro ⟨piece,hp,he⟩
    cases piece with
    | item c => cases he
    | hit template expr =>
      cases he
      exact hp
  · intro h
    exact ⟨_,h,rfl⟩

theorem isTemplateOnly_iff {line : Text} :
    isTemplateOnly line = true ↔ openMark <+: line ∧ closeMark <:+ line := by
  rw [isTemplateOnly, Bool.and_eq_true, List.isPrefixOf_iff_prefix, List.isSuffixOf_iff_suffix]

theorem templateAt_of_openMark {line : Text} (ho : openMark <+: line) (hf : findall line ≠ []) :
    ∃ u e r, line = u ++ r ∧ templateAt (u ++ r) = some (e,r) := by
  obtain ⟨p,hp⟩ := List.exists_mem_of_ne_nil _ hf
  obtain ⟨x,t,hs,ht⟩ := hit_of_mem_pieces templateAt_consumes (mem_findall.mp (show (p.1,p.2) ∈ _ from hp))
  by_cases hx : x = []
  · exact ⟨p.1,p.2,t,by rw [hs, hx, List.nil_append],ht⟩
  · obtain ⟨l,rfl⟩ := ho
    obtain ⟨⟨e,r⟩,her⟩ := Option.isSome_iff_exists.mp (templateAt_isSome hx hs ht)
    obtain ⟨u,_,hu⟩ := templateAt_consumes _ _ _ her
    exact ⟨u,e,r,hu,hu ▸ her⟩

theorem isTemplateOnly_of_templateAt {u e : Text} (h : templateAt u = some (e,[])) :
    isTemplateOnly u = true := by
  obtain ⟨w,t,hu,_,_,hend,_⟩ := templateAt_eq_some.mp h
  obtain ⟨w',rfl,_⟩ := templateEnd_eq_some.mp hend
  refine isTemplateOnly_iff.mpr ⟨⟨_,hu.symm⟩,⟨openMark ++ (w ++ (e ++ w')),?_⟩⟩
  rw [hu]
  simp

section
variable {E V : Type} (ev : Evaluation E V)

theorem templateExpression_eq {template e r : Text} (h : templateAt template = some (e,r)) :
    templateExpression ev template = (ev.result e).mapError .raised := by
  rw [templateExpression, h]

theorem evalExpressionOp_eq {template e : Text} (h : templateAt template = some (e,[])) :
    evalExpressionOp ev template = insertion ev template e := by
  rw [evalExpressionOp, templateExpression_eq ev h, insertion]

theorem substitute_congr {ε : Type} {f g : Text → Text → Except ε Text} {ps : List (Piece Char Text)}
    (h : ∀ u e, .hit u e ∈ ps → f u e = g u e) : substitute f ps = substitute g ps := by
  induction ps with
  | nil => rfl
  | cons p ps ih =>
    have ht := ih fun u e hm => h u e (List.mem_cons_of_mem p hm)
    cases p with
    | item c => rw [substitute, substitute, ht]
    | hit u e => rw [substitute, substitute, ht, h u e (by simp)]

theorem sub_eq (line : Text) :
    sub (evalExpressionOp ev) line = substitute (insertion ev) (segments line) :=
  substitute_congr fun _ _ h => evalExpressionOp_eq ev (templateAt_of_mem h)

theorem segments_of_isTemplateOnly {line : Text} (ho : isTemplateOnly line = true)
    (hf : (findall line).length = 1) : ∃ u e r, line = u ++ r ∧ templateAt (u ++ r) = some (e,r) ∧
      segments line = .hit u e :: segments r ∧ findall line = [(u,e)] := by
  have hne : findall line ≠ [] := by
    intro h
    rw [h] at hf
    cases hf
  obtain ⟨u,e,r,hline,ht⟩ := templateAt_of_openMark (isTemplateOnly_iff.mp ho).1 hne
  have hs : segments line = .hit u e :: segments r := by
    rw [hline]
    exact segments_of_templateAt ht
  refine ⟨u,e,r,hline,ht,hs,?_⟩
  have hfind : findall line = (u,e) :: findall r := by
    unfold findall
    rw [hs, List.filterMap_cons]
  rw [hfind, List.length_cons, Nat.add_eq_right, List.length_eq_zero_iff] at hf
  rw [hfind, hf]

/-- The string starts with its only template and ends in `}}`, but not with the template. -/
def ClosesEarly (line : Text) : Prop :=
  isTemplateOnly line = true ∧ (findall line).length = 1 ∧ (findall line).map Prod.fst ≠ [line]

instance (line : Text) : Decidable (ClosesEarly line) := by
  unfold ClosesEarly
  infer_instance

theorem specified_of_ne {line : Text} (h : ∀ u e, segments line ≠ [.hit u e]) :
    specified ev line = (substitute (insertion ev) (segments line)).map .str := by
  rw [specified]
  split
  · rename_i u e hs
    exact absurd hs (h u e)
  · rfl

theorem operator_eq_specified {line : Text} (h : ¬ ClosesEarly line) :
    operator ev line = specified ev line := by
  rw [operator]
  split
  · rename_i hif
    rw [Bool.and_eq_true, decide_eq_true_eq] at hif
    obtain ⟨u,e,r,hline,ht,hs,hf⟩ := segments_of_isTemplateOnly hif.1 hif.2
    have hr : r = [] := by
      have hfst : (findall line).map Prod.fst = [line] := by
        by_contra hne
        exact h ⟨hif.1,hif.2,hne⟩
      rw [hf, hline] at hfst
      simpa using hfst
    subst hr
    rw [specified, hs, hline, templateExpression_eq ev ht]
    rfl
  · rename_i hif
    rw [specified_of_ne, sub_eq]
    -- one template as a whole would have taken the other branch
    intro u e hs
    have hline : line = u := by
      rw [← text_segments line, hs]
      simp [Piece.text]
    have hmem : .hit u e ∈ segments line := by simp [hs]
    have hu : templateAt u = some (e,[]) := templateAt_of_mem hmem
    apply hif
    rw [Bool.and_eq_true, decide_eq_true_eq]
    refine ⟨hline ▸ isTemplateOnly_of_templateAt hu,?_⟩
    simp [findall, hs]

theorem operator_result {line : Text} {result : Text → Except E (PyObject V)}
    (h : ∀ t ∈ findall line, result t.2 = ev.result t.2) :
    operator { ev with result := result } line = operator ev line := by
  rw [operator, operator]
  split
  · rename_i hif
    rw [Bool.and_eq_true, decide_eq_true_eq] at hif
    obtain ⟨u,e,r,hline,ht,_,hf⟩ := segments_of_isTemplateOnly hif.1 hif.2
    rw [← hline] at ht
    rw [templateExpression_eq _ ht, templateExpression_eq _ ht]
    exact congrArg _ (h (u,e) (by simp [hf]))
  · rw [sub_eq, sub_eq]
    apply congrArg
    apply substitute_congr
    intro u e hm
    have he : result e = ev.result e := h (u,e) (mem_findall.mpr hm)
    have hstr : ∀ value, Evaluation.str { ev with result := result } value = ev.str value := by
      intro value
      cases value <;> rfl
    simp only [insertion, he, hstr]

end

/-- The result is the specified one, the segments that it is made of are those of the string, and nothing
but the expressions of the string's templates is evaluated. -/
def EvaluatedAsSpecified (line : Text) : Prop :=
  (segments line).flatMap Piece.text = line ∧ ∀ (E V : Type) (ev : Evaluation E V),
    evalTemplatedObject ev (.str line) = specified ev line ∧
    ∀ result, (∀ t ∈ findall line, result t.2 = ev.result t.2) →
      evalTemplatedObject { ev with result := result } (.str line) = evalTemplatedObject ev (.str line)

theorem substitute_items {ε : Type} {f : Text → Text → Except ε Text} {ps : List (Piece Char Text)}
    (h : ∀ u e, .hit u e ∉ ps) : substitute f ps = .ok (ps.flatMap Piece.text) := by
  induction ps with
  | nil => rfl
  | cons p ps ih =>
    have ht := ih fun u e hm => h u e (List.mem_cons_of_mem p hm)
    cases p with
    | item c =>
      rw [substitute, ht]
      rfl
    | hit u e => exact absurd (List.mem_cons_self ..) (h u e)

theorem not_specified_of_closesEarly {line : Text} (h : ClosesEarly line) :
    ¬ EvaluatedAsSpecified line := by
  obtain ⟨ho,hlen,hne⟩ := h
  obtain ⟨u,e,r,hline,ht,hs,hf⟩ := segments_of_isTemplateOnly ho hlen
  have hr : r ≠ [] := by
    rintro rfl
    apply hne
    rw [hf, hline]
    simp
  have hrest : ∀ v x, Piece.hit v x ∉ segments r := by
    intro v x hv
    have hfind : findall r = [] := by
      unfold findall at hf
      rw [hs, List.filterMap_cons] at hf
      exact (List.cons.inj hf).2
    have hmem := mem_findall.mpr hv
    rw [hfind] at hmem
    cases hmem
  have hsegments : ∀ v x, segments line ≠ [.hit v x] := by
    intro v x hv
    rw [hs] at hv
    apply hr
    rw [← text_segments r, (List.cons.inj hv).2]
    rfl
  -- every expression has the empty text for its value
  let ev : Evaluation Unit Unit := ⟨fun _ => .ok (.str []),fun _ => none,fun _ _ _ => .error ()⟩
  have hcode : operator ev line = .ok (.str []) := by
    rw [operator, ho, if_pos (by simp [hlen]), hline, templateExpression_eq ev ht]
    rfl
  have hspec : specified ev line = .ok (.str r) := by
    rw [specified_of_ne ev hsegments, hs, substitute, substitute_items hrest, text_segments]
    rfl
  intro hall
  have heq : operator ev line = specified ev line := (hall.2 Unit Unit ev).1
  rw [hcode, hspec] at heq
  injection heq with heq
  injection heq with heq
  exact hr heq.symm

/-- Exactly the strings that do not close early are evaluated as specified. -/
theorem templated_string_specified (line : Text) : EvaluatedAsSpecified line ↔ ¬ ClosesEarly line := by
  constructor
  · intro h hearly
    exact not_specified_of_closesEarly hearly h
  · intro h
    refine ⟨text_segments line,?_⟩
    intro E V ev
    refine ⟨operator_eq_specified ev h,?_⟩
    intro result hresult
    exact operator_result ev hresult

/-- Every expression is the number seven. -/
def sevenEvaluation : Evaluation Unit ℕ where
  result _ := .ok (.other 7)
  render
    | .other n => some (Nat.toDigits 10 n)
    | _ => none
  setItem done key value := .ok (done ++ [(key,value)])

/-- `${{ a }} foo }}`. -/
def earlyClosed : Text := "$\x7b\x7b a \x7d\x7d foo \x7d\x7d".toList

theorem text_after_template_lost : ¬ EvaluatedAsSpecified earlyClosed := by
  have hcode : evalTemplatedObject sevenEvaluation (.str earlyClosed) = .ok (.other 7) := rfl
  have hspec : specified sevenEvaluation earlyClosed = .ok (.str "7 foo \x7d\x7d".toList) := rfl
  intro h
  have heq := (h.2 Unit ℕ sevenEvaluation).1
  rw [hcode, hspec] at heq
  injection heq with heq
  cases heq

section
variable {V : Type}

def PyObject.keyTexts : PyObject V → List Text
  | .str s => [s]
  | _ => []

mutual

/-- The strings of an object that are searched for templates: values and keys. -/
def PyObject.texts : PyObject V → List Text
  | .str s => [s]
  | .list items => itemTexts items
  | .dict items => entryTexts items
  | .other _ => []

def itemTexts : List (PyObject V) → List Text
  | [] => []
  | item :: items => item.texts ++ itemTexts items

def entryTexts : List (PyObject V × PyObject V) → List Text
  | [] => []
  | (k,v) :: items => k.keyTexts ++ v.texts ++ entryTexts items

end

variable {E : Type} (ev : Evaluation E V) {f g : Text → Except (TemplateError E) (PyObject V)}

theorem evalKey_congr (k : PyObject V) (h : ∀ s ∈ k.keyTexts, f s = g s) : evalKey f k = evalKey g k := by
  cases k with
  | str s => exact h s (by simp [PyObject.keyTexts])
  | _ => rfl

mutual

theorem evalTemplatedObjRec_congr : ∀ obj : PyObject V, (∀ s ∈ obj.texts, f s = g s) →
    evalTemplatedObjRec ev f obj = evalTemplatedObjRec ev g obj
  | .str s, h => h s (by simp [PyObject.texts])
  | .list items, h => by
    rw [evalTemplatedObjRec, evalTemplatedObjRec, evalItems_congr items h]
  | .dict items, h => by
    rw [evalTemplatedObjRec, evalTemplatedObjRec, evalEntries_congr items [] h]
  | .other _, _ => rfl

theorem evalItems_congr : ∀ items : List (PyObject V), (∀ s ∈ itemTexts items, f s = g s) →
    evalItems ev f items = evalItems ev g items
  | [], _ => rfl
  | item :: items, h => by
    rw [itemTexts, List.forall_mem_append] at h
    rw [evalItems, evalItems, evalTemplatedObjRec_congr item h.1, evalItems_congr items h.2]

theorem evalEntries_congr : ∀ (items done : List (PyObject V × PyObject V)),
    (∀ s ∈ entryTexts items, f s = g s) → evalEntries ev f items done = evalEntries ev g items done
  | [], _, _ => rfl
  | (k,v) :: items, done, h => by
    rw [entryTexts, List.forall_mem_append, List.forall_mem_append] at h
    obtain ⟨⟨hk,hv⟩,hitems⟩ := h
    have htail : ∀ next, evalEntries ev f items next = evalEntries ev g items next :=
      fun next => evalEntries_congr items next hitems
    simp only [evalEntries, evalKey_congr k hk, evalTemplatedObjRec_congr v hv, htail]

end

/-- An object is evaluated as specified where none of its strings closes early. -/
theorem evalTemplatedObject_specified {obj : PyObject V} (h : ∀ s ∈ obj.texts, ¬ ClosesEarly s) :
    evalTemplatedObject ev obj = evalTemplatedObjRec ev (specified ev) obj :=
  evalTemplatedObjRec_congr ev obj fun s hs => operator_eq_specified ev (h s hs)

end

/-- Templates in a key and in the lists of a dictionary below it. -/
def nestedTemplates : PyObject ℕ :=
  .dict [(.str "k$\x7b\x7b a \x7d\x7d".toList,
    .dict [(.str "items".toList,.list [.str "$\x7b\x7b a \x7d\x7d".toList,.str "$\x7b\x7b a \x7d\x7d!".toList])])]

theorem nestedTemplates_specified :
    evalTemplatedObject sevenEvaluation nestedTemplates =
      .ok (.dict [(.str "k7".toList,.dict [(.str "items".toList,.list [.other 7,.str "7!".toList])])]) ∧
    evalTemplatedObject sevenEvaluation nestedTemplates =
      evalTemplatedObjRec sevenEvaluation (specified sevenEvaluation) nestedTemplates :=
  ⟨rfl,evalTemplatedObject_specified sevenEvaluation (by decide)⟩

end Allama
