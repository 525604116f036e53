import Mathlib.Data.List.DropRight
import Allama.Templates

/-! Expressions (`expressions/core.py`) and the templates that hold one expression each. -/
namespace Allama
open Backtracking

/-- A text without the white space around it. -/
def strip (e : Text) : Text := (e.dropWhile isSpace).rdropWhile isSpace

/-- `ExprParser`, with the trees of the grammar and the details of what it raises. White space between
tokens is ignored, a blank text is no expression, and `}}` stands in an expression only within a literal
or where two braces close, so that what comes before it is unfinished. -/
structure ExprParser (Tree D : Type) where
  parse : Text → Except D Tree
  parse_strip : ∀ {e tree}, parse e = .ok tree → parse (strip e) = .ok tree
  strip_ne_nil : ∀ {e tree}, parse e = .ok tree → strip e ≠ []
  unfinished : ∀ {e tree} (p w r : Text), parse e = .ok tree → strip e = p ++ (w ++ (closeMark ++ r)) →
    p ≠ [] → (∀ c ∈ w, isSpace c = true) → ∃ detail, parse p = .error detail

inductive ExpressionStage
  | parsing
  | evaluating
deriving DecidableEq

/-- `Error parsing expression ..` and `Error evaluating expression ..`, with the expression that the
message quotes. -/
structure ExpressionError (D : Type) where
  stage : ExpressionStage
  expr : Text
  detail : D

section
variable {Tree D V : Type} (parser : ExprParser Tree D) (evaluate : Tree → Except D (PyObject V))

/-- `Expression(expr, operand=operand).result()`, with `evaluate` for the evaluator on the operand. -/
def expressionResult (expr : Text) : Except (ExpressionError D) (PyObject V) :=
  match parser.parse expr with
  | .error detail => .error ⟨.parsing,expr,detail⟩
  | .ok tree => (evaluate tree).mapError (⟨.evaluating,expr,·⟩)

/-- The templates of expressions on one operand. -/
def expressionEvaluation (render : PyObject V → Option Text)
    (setItem : List (PyObject V × PyObject V) → PyObject V → PyObject V →
      Except (ExpressionError D) (List (PyObject V × PyObject V))) : Evaluation (ExpressionError D) V where
  result := expressionResult parser evaluate
  render := render
  setItem := setItem

end

/-- `'${{ ' + e + ' }}'`. -/
def templated (e : Text) : Text := "$\x7b\x7b ".toList ++ (e ++ " \x7d\x7d".toList)

/-- The same value, or a failure at the same stage for the same reason. -/
def SameOutcome {D V : Type} : Except (TemplateError (ExpressionError D)) (PyObject V) →
    Except (ExpressionError D) (PyObject V) → Prop
  | .ok v, .ok v' => v = v'
  | .error (.raised e), .error e' => e.stage = e'.stage ∧ e.detail = e'.detail
  | _, _ => False

/-- The expression has no `}}` after its first character. -/
def Uncut (e : Text) : Prop := ¬ closeMark <:+: (strip e).tail

instance (e : Text) : Decidable (Uncut e) := by
  unfold Uncut
  infer_instance

theorem strip_parts (e : Text) : ∃ l r, e = l ++ (strip e ++ r) ∧ (∀ c ∈ l, isSpace c = true) ∧
    ∀ c ∈ r, isSpace c = true := by
  refine ⟨e.takeWhile isSpace,(e.dropWhile isSpace).rtakeWhile isSpace,?_,?_,?_⟩
  · rw [strip, List.rdropWhile_append_rtakeWhile, List.takeWhile_append_dropWhile]
  · intro c hc
    exact List.mem_takeWhile_imp hc
  · intro c hc
    exact List.mem_rtakeWhile_imp hc

theorem strip_head {e x : Text} {c : Char} (h : strip e = c :: x) : isSpace c = false := by
  have hp : c :: x <+: e.dropWhile isSpace := h ▸ List.rdropWhile_prefix isSpace _
  obtain ⟨t,ht⟩ := hp
  have hhead := List.head?_dropWhile_not isSpace e
  rw [← ht] at hhead
  simpa using hhead

theorem strip_last {e x : Text} {c : Char} (h : strip e = x ++ [c]) : isSpace c = false := by
  have hne : (e.dropWhile isSpace).rdropWhile isSpace ≠ [] := by
    change strip e ≠ []
    rw [h]
    simp
  have hlast := List.rdropWhile_last_not isSpace (e.dropWhile isSpace) hne
  have heq : (e.dropWhile isSpace).rdropWhile isSpace = x ++ [c] := h
  simpa [heq] using hlast

theorem templateAt_spaces {w t e r : Text} {c : Char} (hw : ∀ c ∈ w, isSpace c = true)
    (hc : isSpace c = false) (h : lazyPlus (fun _ => true) templateEnd (c :: t) = some (e,r)) :
    templateAt (openMark ++ (w ++ c :: t)) = some (e,r) := by
  rw [templateAt, literal_append]
  refine greedyStar_eq_some.mpr ⟨w,c :: t,rfl,hw,h,?_⟩
  intro u t' hs hu hl
  rcases List.append_eq_append_iff.mp hs with ⟨y,rfl,hy⟩ | ⟨y,rfl,_⟩
  · cases y with
    | nil => simp at hl
    | cons d y =>
      obtain ⟨rfl,_⟩ := List.cons.inj hy
      have := hu c (by simp)
      rw [hc] at this
      cases this
  · rw [List.length_append] at hl
    omega

theorem templated_parts (e : Text) : ∃ w z, templated e = openMark ++ (w ++ (strip e ++ z)) ∧
    (∀ c ∈ w, isSpace c = true) ∧ templateEnd z = some [] ∧ ∃ c z', z = c :: z' ∧ isSpace c = true := by
  obtain ⟨l,r,he,hl,hr⟩ := strip_parts e
  refine ⟨' ' :: l,r ++ " \x7d\x7d".toList,?_,?_,?_,?_⟩
  · rw [templated, ← List.append_assoc (strip e), ← List.append_assoc (' ' :: l), List.cons_append, ← he]
    rfl
  · intro c hc
    rcases List.mem_cons.mp hc with rfl | hc
    · decide
    · exact hl c hc
  · refine templateEnd_eq_some.mpr ⟨r ++ [' '],by simp [closeMark],?_⟩
    intro c hc
    rcases List.mem_append.mp hc with hc | hc
    · exact hr c hc
    · obtain rfl := List.mem_singleton.mp hc
      decide
  · cases r with
    | nil => exact ⟨' ',_,rfl,by decide⟩
    | cons c r => exact ⟨c,_,rfl,hr c (by simp)⟩

/-- A template that ends within its expression has a `}}` there. -/
theorem infix_of_templateEnd {e v y z t : Text} {c : Char} (he : strip e = v ++ y) (hv : v ≠ [])
    (hy : y ≠ []) (hc : isSpace c = true) (h : templateEnd (y ++ c :: z) = some t) :
    closeMark <:+: (strip e).tail := by
  obtain ⟨w,hw,hspace⟩ := templateEnd_eq_some.mp h
  -- the last character of the expression is no white space
  obtain ⟨y',d,rfl⟩ : ∃ y' d, y = y' ++ [d] :=
    ⟨y.dropLast,y.getLast hy,(List.dropLast_append_getLast hy).symm⟩
  have hd : isSpace d = false := strip_last (x := v ++ y') (by rw [he, List.append_assoc])
  have hclose : ∀ u, u ≠ [] → u ++ c :: z = closeMark ++ t → closeMark <+: u := by
    intro u hu heq
    cases u with
    | nil => exact absurd rfl hu
    | cons a u =>
      cases u with
      | nil =>
        obtain ⟨_,htail⟩ := List.cons.inj heq
        have hbrace : c = '}' := (List.cons.inj htail).1
        exact absurd hbrace (space_ne_brace hc)
      | cons b u =>
        obtain ⟨rfl,htail⟩ := List.cons.inj heq
        obtain ⟨rfl,_⟩ := List.cons.inj htail
        exact ⟨u,rfl⟩
  have hclosed : closeMark <:+: y' ++ [d] := by
    rcases List.append_eq_append_iff.mp hw with ⟨u,hu,_⟩ | ⟨u,hu,hrest⟩
    · have := hspace d (by rw [hu]; simp)
      rw [hd] at this
      cases this
    · rw [hu]
      refine (hclose u ?_ hrest.symm).isInfix.trans (List.suffix_append w u).isInfix
      rintro rfl
      have := hspace d (by rw [List.append_nil] at hu; rw [← hu]; simp)
      rw [hd] at this
      cases this
  cases v with
  | nil => exact absurd rfl hv
  | cons a v =>
    rw [he, List.cons_append, List.tail_cons]
    exact hclosed.trans (List.suffix_append v _).isInfix

theorem templateAt_uncut {e : Text} (hne : strip e ≠ []) (h : Uncut e) :
    templateAt (templated e) = some (strip e,[]) := by
  obtain ⟨w,z,hline,hw,hend,c,z',rfl,hc⟩ := templated_parts e
  obtain ⟨d,x,hx⟩ := List.exists_cons_of_ne_nil hne
  rw [hline, hx]
  apply templateAt_spaces hw (strip_head hx)
  change lazyPlus _ _ (d :: x ++ c :: z') = _
  rw [← hx]
  refine lazyPlus_eq_some.mpr ⟨c :: z',rfl,hne,by simp,hend,?_⟩
  intro v y he hv hy
  cases ht : templateEnd (y ++ c :: z') with
  | none => rfl
  | some t => exact absurd (infix_of_templateEnd he hv hy hc ht) h

/-- The template of an expression that is cut holds what comes before a `}}` of it. -/
theorem templateAt_cut {e : Text} (h : ¬ Uncut e) : ∃ p w r t, templateAt (templated e) = some (p,t) ∧
    strip e = p ++ (w ++ (closeMark ++ r)) ∧ p ≠ [] ∧ ∀ c ∈ w, isSpace c = true := by
  obtain ⟨a,b,hab⟩ := not_not.mp h
  obtain ⟨w,z,hline,hw,hend,_⟩ := templated_parts e
  have hne : strip e ≠ [] := by
    intro hnil
    simp [hnil, closeMark] at hab
  obtain ⟨d,x,hx⟩ := List.exists_cons_of_ne_nil hne
  rw [hx, List.tail_cons] at hab
  cases hlazy : lazyPlus (fun _ => true) templateEnd (d :: x ++ z) with
  | none =>
    rw [lazyPlus_eq_none] at hlazy
    rw [hlazy (d :: x) z rfl (by simp) (by simp)] at hend
    cases hend
  | some m =>
    obtain ⟨p,t⟩ := m
    refine ⟨p,?_⟩
    obtain ⟨s,hs,hp,_,hst,hshort⟩ := lazyPlus_eq_some.mp hlazy
    have hat : templateAt (templated e) = some (p,t) := by
      rw [hline, hx]
      exact templateAt_spaces hw (strip_head hx) hlazy
    -- the first place where it can end is not after this `}}`
    have hbrace : templateEnd (closeMark ++ (b ++ z)) = some (b ++ z) :=
      templateEnd_eq_some.mpr ⟨[],rfl,by simp⟩
    have hsplit : (d :: a) ++ (closeMark ++ (b ++ z)) = p ++ s := by
      rw [← hs, ← hab]
      simp
    obtain ⟨q,hq,hqs⟩ : ∃ q, d :: a = p ++ q ∧ s = q ++ (closeMark ++ (b ++ z)) := by
      rcases List.append_eq_append_iff.mp hsplit with ⟨q,hq,hqs⟩ | ⟨q,hq,hqs⟩
      · cases q with
        | nil => exact ⟨[],by simpa using hq.symm,by simpa using hqs.symm⟩
        | cons f q =>
          have := hshort (d :: a) (f :: q) hq (by simp) (by simp)
          rw [← hqs, hbrace] at this
          cases this
      · exact ⟨q,hq,hqs⟩
    obtain ⟨w',hw',hspace⟩ := templateEnd_eq_some.mp hst
    obtain ⟨q',rfl,hq'⟩ : ∃ q', q = w' ++ q' ∧ q' ++ (closeMark ++ (b ++ z)) = closeMark ++ t := by
      rcases List.append_eq_append_iff.mp (hqs.symm.trans hw') with ⟨q',hq',hrest⟩ | ⟨q',hq',hrest⟩
      · cases q' with
        | nil => exact ⟨[],by simpa using hq'.symm,by simpa using hrest⟩
        | cons f q' =>
          have hf : '}' = f := (List.cons.inj hrest).1
          exact absurd hf.symm (space_ne_brace (hspace f (by rw [hq']; simp)))
      · exact ⟨q',hq',hrest.symm⟩
    have hstart : closeMark <+: q' ++ (closeMark ++ b) := by
      have hlonger : q' ++ (closeMark ++ b) <+: closeMark ++ t := by
        rw [← hq']
        exact ⟨z,by simp⟩
      apply List.prefix_of_prefix_length_le (List.prefix_append ..) hlonger
      simp only [List.length_append]
      omega
    obtain ⟨r,hr⟩ := hstart
    refine ⟨w',r,t,hat,?_,hp,hspace⟩
    have hab' : strip e = (d :: a) ++ (closeMark ++ b) := by
      rw [hx, ← hab]
      simp
    rw [hab', hq, hr]
    simp

section
variable {Tree D V : Type} (parser : ExprParser Tree D) (evaluate : Tree → Except D (PyObject V))
  (render : PyObject V → Option Text) (setItem : List (PyObject V × PyObject V) → PyObject V →
    PyObject V → Except (ExpressionError D) (List (PyObject V × PyObject V)))

theorem expressionResult_eq {e : Text} {tree : Tree} (h : parser.parse e = .ok tree) :
    expressionResult parser evaluate e = (evaluate tree).mapError (⟨.evaluating,e,·⟩) := by
  rw [expressionResult, h]

theorem evalTemplatedObject_template {E : Type} (ev : Evaluation E V) {line e : Text}
    (h : templateAt line = some (e,[])) :
    evalTemplatedObject ev (.str line) = (ev.result e).mapError .raised := by
  have hs : segments line = [.hit line e] := by
    have := segments_of_templateAt (r := []) (by rwa [List.append_nil])
    rwa [List.append_nil] at this
  have hearly : ¬ ClosesEarly line := by
    rintro ⟨_,_,hne⟩
    simp [findall, hs] at hne
  change operator ev line = _
  rw [operator_eq_specified ev hearly, specified, hs]

theorem evalTemplatedObject_error {E : Type} (ev : Evaluation E V) {line e r : Text} {error : E}
    (h : templateAt line = some (e,r)) (he : ev.result e = .error error) :
    evalTemplatedObject ev (.str line) = .error (.raised error) := by
  change operator ev line = _
  rw [operator]
  split
  · rw [templateExpression_eq ev h, he]
    rfl
  · obtain ⟨u,_,hline⟩ := templateAt_consumes _ _ _ h
    rw [hline] at h
    rw [sub_eq, hline, segments_of_templateAt h, substitute, insertion, he]
    rfl

theorem sameOutcome_of_uncut {e : Text} {tree : Tree} (h : parser.parse e = .ok tree) (hu : Uncut e) :
    SameOutcome (evalTemplatedObject (expressionEvaluation parser evaluate render setItem)
      (.str (templated e))) (expressionResult parser evaluate e) := by
  have hat := templateAt_uncut (parser.strip_ne_nil h) hu
  rw [evalTemplatedObject_template _ hat]
  change SameOutcome ((expressionResult parser evaluate (strip e)).mapError .raised) _
  rw [expressionResult_eq _ _ h, expressionResult_eq _ _ (parser.parse_strip h)]
  cases evaluate tree with
  | ok v => rfl
  | error detail => exact ⟨rfl,rfl⟩

theorem not_sameOutcome_of_cut {e : Text} {tree : Tree} (h : parser.parse e = .ok tree) (hu : ¬ Uncut e) :
    ¬ SameOutcome (evalTemplatedObject (expressionEvaluation parser evaluate render setItem)
      (.str (templated e))) (expressionResult parser evaluate e) := by
  obtain ⟨p,w,r,t,hat,he,hp,hw⟩ := templateAt_cut hu
  obtain ⟨detail,hdetail⟩ := parser.unfinished p w r h he hp hw
  have hresult : expressionResult parser evaluate p = .error ⟨.parsing,p,detail⟩ := by
    rw [expressionResult, hdetail]
  rw [evalTemplatedObject_error _ hat hresult, expressionResult_eq _ _ h]
  cases evaluate tree with
  | ok v => exact id
  | error detail' =>
    rintro ⟨hstage,_⟩
    cases hstage

/-- The template of an accepted expression gives what the expression gives exactly if no `}}` of the
expression cuts it. -/
theorem template_outcome_iff {e : Text} {tree : Tree} (h : parser.parse e = .ok tree) :
    SameOutcome (evalTemplatedObject (expressionEvaluation parser evaluate render setItem)
      (.str (templated e))) (expressionResult parser evaluate e) ↔ Uncut e := by
  constructor
  · intro hsame
    by_contra hu
    exact not_sameOutcome_of_cut parser evaluate render setItem h hu hsame
  · exact sameOutcome_of_uncut parser evaluate render setItem h

end

theorem length_strip_le (e : Text) : (strip e).length ≤ e.length := by
  obtain ⟨l,r,he,_,_⟩ := strip_parts e
  have hl := congrArg List.length he
  simp only [List.length_append] at hl
  omega

/-- The parser restricted to one expression. -/
def exprParserOf (x : Text) (hx : strip x = x) (hne : x ≠ []) : ExprParser Unit Unit where
  parse e := if strip e = x then .ok () else .error ()
  parse_strip := by
    intro e tree h
    split at h
    · rename_i he
      rw [he, hx, if_pos rfl]
    · cases h
  strip_ne_nil := by
    intro e tree h
    split at h
    · rename_i he
      rwa [he]
    · cases h
  unfinished := by
    intro e tree p w r h he hp hw
    split at h
    · rename_i hex
      refine ⟨(),if_neg ?_⟩
      intro hpx
      have hl := length_strip_le p
      rw [hpx, ← hex, he] at hl
      have hclose : closeMark.length = 2 := rfl
      simp only [List.length_append, hclose] at hl
      omega
    · cases h

/-- `{'a': 1}`. -/
def flatDict : Text := "\x7b'a': 1\x7d".toList

/-- `{'a': {'b': 1}}`. -/
def nestedDict : Text := "\x7b'a': \x7b'b': 1\x7d\x7d".toList

def noRender : PyObject ℕ → Option Text := fun _ => none

def appendItem {E : Type} (done : List (PyObject ℕ × PyObject ℕ)) (key value : PyObject ℕ) :
    Except E (List (PyObject ℕ × PyObject ℕ)) := .ok (done ++ [(key,value)])

theorem template_outcome_flat : SameOutcome
    (evalTemplatedObject (expressionEvaluation (exprParserOf flatDict (by decide) (by decide))
      (fun _ => .ok (.dict [(.str "a".toList,.other 1)])) noRender appendItem)
      (.str (templated ('\n' :: flatDict))))
    (expressionResult (exprParserOf flatDict (by decide) (by decide))
      (fun _ => .ok (.dict [(.str "a".toList,.other 1)])) ('\n' :: flatDict)) :=
  (template_outcome_iff (exprParserOf flatDict (by decide) (by decide)) _ noRender appendItem
    (show (exprParserOf flatDict (by decide) (by decide)).parse ('\n' :: flatDict) = .ok () from rfl)).mpr
    (by decide)

theorem nested_dict_cut : ¬ SameOutcome
    (evalTemplatedObject (expressionEvaluation (exprParserOf nestedDict (by decide) (by decide))
      (fun _ => .ok (.dict [(.str "a".toList,.dict [(.str "b".toList,.other 1)])])) noRender appendItem)
      (.str (templated nestedDict)))
    (expressionResult (exprParserOf nestedDict (by decide) (by decide))
      (fun _ => .ok (.dict [(.str "a".toList,.dict [(.str "b".toList,.other 1)])])) nestedDict) :=
  not_sameOutcome_of_cut _ _ noRender appendItem
    (show (exprParserOf nestedDict (by decide) (by decide)).parse nestedDict = .ok () from rfl) (by decide)

end Allama
