import Allama.DSLValidation
import Allama.HttpMessages
import Allama.SplitLists

/-! `StreamID` as the text that it is (`dsl/schemas.py`): made of a scope, an index and the id below which it is, and
taken apart again. -/
namespace Allama

theorem notMem_of_isSlug {r : String} (h : isSlug r) : '/' ∉ r.toList ∧ ':' ∉ r.toList ∧ '.' ∉ r.toList := by
  unfold isSlug at h
  rw [Bool.and_eq_true, List.all_eq_true] at h
  refine ⟨?_,?_,?_⟩ <;> (intro hmem; exact absurd (h.2 _ hmem) (by decide))

namespace StreamIds
open Http (intOfText maxDigits IsDigit)

/-- `int | SkipToken`. -/
inductive Index
  | int (i : ℤ)
  | skip
deriving DecidableEq

def skipToken : String := "skip"

def Index.str : Index → String
  | .int i => toString i
  | .skip => skipToken

/-- `str` takes the index: it is no number of more digits than `int` and `str` convert. -/
def Index.Converts : Index → Prop
  | .int i => (Nat.toDigits 10 i.natAbs).length ≤ maxDigits
  | .skip => True

instance (index : Index) : Decidable index.Converts := by
  cases index <;> unfold Index.Converts <;> infer_instance

/-- `new_stream`. -/
def segment (scope : String) (index : Index) : String := scope ++ ":" ++ index.str

def idText (scope : String) (index : Index) : Option String → String
  | none => segment scope index
  | some baseStreamId => baseStreamId ++ "/" ++ segment scope index

/-- `StreamID.new`; `none` is the `ValueError` of `str`. -/
def new (scope : String) (index : Index) (baseStreamId : Option String) : Option String :=
  if index.Converts then some (idText scope index baseStreamId) else none

def skip (scope : String) (baseStreamId : Option String) : Option String := new scope .skip baseStreamId

/-- `ROOT_STREAM`. -/
def rootStream : String := idText rootScope (.int 0) none

def streams (id : String) : List Text := id.toList.splitOn '/'

/-- Two values at least are unpacked, the id is refused, or `int` refuses its index. -/
inductive ValueError
  | notEnoughValues (got : ℕ)
  | invalid (message : String)
  | literal (text : Text)

def leaf (id : String) : Except ValueError (String × Index) :=
  match ((streams id).getLastD []).splitOn ':' with
  | [scope,index] =>
    if index = skipToken.toList then .ok (String.ofList scope,.skip)
    else
      match intOfText index with
      | some i => .ok (String.ofList scope,.int i)
      | none => .error (.literal index)
  | _ :: _ :: _ => .error (.invalid ("Invalid stream ID: " ++ id))
  | parts => .error (.notEnoughValues parts.length)

/-! The index in the id. -/

theorem toString_cases (i : ℤ) : ∃ n : ℕ, (i = n ∧ (toString i).toList = Nat.toDigits 10 n) ∨
    (i = -n ∧ (toString i).toList = '-' :: Nat.toDigits 10 n) := by
  cases i with
  | ofNat n => exact ⟨n,.inl ⟨rfl,Nat.toList_repr⟩⟩
  | negSucc n =>
    refine ⟨n+1,.inr ⟨rfl,?_⟩⟩
    change ("-" ++ Nat.repr (n+1)).toList = _
    rw [String.toList_append, Nat.toList_repr]
    rfl

theorem intOfText_toString {i : ℤ} (h : (Index.int i).Converts) : intOfText (toString i).toList = some i := by
  have hdigits : ∀ n : ℕ, ∀ c ∈ Nat.toDigits 10 n, IsDigit c := fun n c hc => Http.isDigit_of_mem_toDigits hc
  have hlength : (Nat.toDigits 10 i.natAbs).length ≤ maxDigits := h
  obtain ⟨n,⟨rfl,htext⟩ | ⟨rfl,htext⟩⟩ := toString_cases i
  · rw [Int.natAbs_natCast] at hlength
    rw [htext, Http.intOfText_digits Nat.toDigits_ne_nil (hdigits n), if_neg (by omega), Http.number_toDigits]
  · rw [Int.natAbs_neg, Int.natAbs_natCast] at hlength
    rw [htext, Http.intOfText_negative Nat.toDigits_ne_nil (hdigits n), if_neg (by omega), Http.number_toDigits]

theorem toString_injective {i j : ℤ} (h : toString i = toString j) : i = j := by
  have hlist : (toString i).toList = (toString j).toList := congrArg String.toList h
  have hminus : ∀ m n : ℕ, Nat.toDigits 10 m ≠ '-' :: Nat.toDigits 10 n := by
    intro m n heq
    have hdigit : IsDigit '-' := Http.isDigit_of_mem_toDigits (heq ▸ List.mem_cons_self)
    exact absurd hdigit (by decide)
  have hsame : ∀ m n : ℕ, Nat.toDigits 10 m = Nat.toDigits 10 n → m = n := by
    intro m n heq
    calc
      m = Http.number (Nat.toDigits 10 m) := (Http.number_toDigits m).symm
      _ = Http.number (Nat.toDigits 10 n) := by rw [heq]
      _ = n := Http.number_toDigits n
  obtain ⟨m,⟨rfl,hm⟩ | ⟨rfl,hm⟩⟩ := toString_cases i <;> obtain ⟨n,⟨rfl,hn⟩ | ⟨rfl,hn⟩⟩ := toString_cases j <;>
    rw [hm, hn] at hlist
  · rw [hsame m n hlist]
  · exact absurd hlist (hminus m n)
  · exact absurd hlist.symm (hminus n m)
  · rw [hsame m n (List.cons.inj hlist).2]

theorem toString_ne_skip (i : ℤ) : toString i ≠ skipToken := by
  intro h
  have hlist : (toString i).toList = ['s','k','i','p'] := congrArg String.toList h
  obtain ⟨n,⟨-,htext⟩ | ⟨-,htext⟩⟩ := toString_cases i
  · have hdigit : IsDigit 's' := Http.isDigit_of_mem_toDigits (htext ▸ hlist ▸ List.mem_cons_self)
    exact absurd hdigit (by decide)
  · exact absurd (List.cons.inj (htext.symm.trans hlist)).1 (by decide)

theorem Index.str_injective {a b : Index} (h : a.str = b.str) : a = b := by
  cases a with
  | int i =>
    cases b with
    | int j => rw [toString_injective h]
    | skip => exact absurd h (toString_ne_skip i)
  | skip =>
    cases b with
    | int j => exact absurd h.symm (toString_ne_skip j)
    | skip => rfl

theorem Index.notMem_str {c : Char} (hdigit : ¬ IsDigit c) (hminus : c ≠ '-') (hskip : c ∉ skipToken.toList)
    (index : Index) : c ∉ index.str.toList := by
  cases index with
  | skip => exact hskip
  | int i =>
    intro hmem
    obtain ⟨n,⟨-,htext⟩ | ⟨-,htext⟩⟩ := toString_cases i
    · rw [Index.str, htext] at hmem
      exact hdigit (Http.isDigit_of_mem_toDigits hmem)
    · rw [Index.str, htext, List.mem_cons] at hmem
      rcases hmem with heq | hmem
      · exact hminus heq
      · exact hdigit (Http.isDigit_of_mem_toDigits hmem)

/-! The segments of the id. -/

section
variable {scope scope' : String} {index index' : Index} {base base' : Option String} {id : String}

def Unseparated (scope : String) : Prop := '/' ∉ scope.toList ∧ ':' ∉ scope.toList

theorem unseparated_of_isSlug (h : isSlug scope) : Unseparated scope :=
  ⟨(notMem_of_isSlug h).1,(notMem_of_isSlug h).2.1⟩

theorem unseparated_rootScope : Unseparated rootScope := by
  unfold Unseparated rootScope
  decide

theorem toList_segment (scope : String) (index : Index) :
    (segment scope index).toList = scope.toList ++ ':' :: index.str.toList := by
  rw [segment, String.toList_append, String.toList_append, List.append_assoc]
  rfl

theorem slash_notMem_segment (h : Unseparated scope) (index : Index) : '/' ∉ (segment scope index).toList := by
  have hindex : '/' ∉ index.str.toList := index.notMem_str (by decide) (by decide) (by decide)
  have hcolon : '/' ≠ ':' := by decide
  rw [toList_segment, List.mem_append, List.mem_cons, not_or, not_or]
  exact ⟨h.1,hcolon,hindex⟩

theorem splitOn_segment (h : Unseparated scope) (index : Index) :
    (segment scope index).toList.splitOn ':' = [scope.toList,index.str.toList] := by
  have hindex : ':' ∉ index.str.toList := index.notMem_str (by decide) (by decide) (by decide)
  rw [toList_segment, List.splitOn_append_cons_self, List.splitOn_eq_singleton h.2, List.splitOn_eq_singleton hindex]
  rfl

theorem skip_suffix_iff (before : Text) (index : Index) :
    ':' :: skipToken.toList <:+ before ++ ':' :: index.str.toList ↔ index = .skip := by
  have hcolon : ∀ index : Index, ':' ∉ index.str.toList :=
    fun index => index.notMem_str (by decide) (by decide) (by decide)
  constructor
  · intro ⟨front,hfront⟩
    have hparts : (front ++ ':' :: Index.skip.str.toList).splitOn ':' = _ := congrArg (List.splitOn ':') hfront
    rw [List.splitOn_append_cons_self, List.splitOn_append_cons_self, List.splitOn_eq_singleton (hcolon _),
      List.splitOn_eq_singleton (hcolon _)] at hparts
    have hlast := (List.append_inj' hparts rfl).2
    exact Index.str_injective (String.toList_inj.mp (List.cons.inj hlast).1.symm)
  · intro hskip
    rw [hskip]
    exact List.suffix_append ..

theorem segment_injective (h : Unseparated scope) (h' : Unseparated scope')
    (heq : segment scope index = segment scope' index') : scope = scope' ∧ index = index' := by
  have hparts : [scope.toList,index.str.toList] = [scope'.toList,index'.str.toList] := by
    rw [← splitOn_segment h, ← splitOn_segment h', heq]
  obtain ⟨hscope,hindex⟩ := List.cons.inj hparts
  exact ⟨String.toList_inj.mp hscope,Index.str_injective (String.toList_inj.mp (List.cons.inj hindex).1)⟩

theorem toList_idText (scope : String) (index : Index) (base : String) :
    (idText scope index (some base)).toList = base.toList ++ '/' :: (segment scope index).toList := by
  rw [idText, String.toList_append, String.toList_append, List.append_assoc]
  rfl

theorem streams_idText (h : Unseparated scope) (index : Index) (base : Option String) :
    streams (idText scope index base) = (base.elim [] streams) ++ [(segment scope index).toList] := by
  have hsegment : (segment scope index).toList.splitOn '/' = [(segment scope index).toList] :=
    List.splitOn_eq_singleton (slash_notMem_segment h index)
  cases base with
  | none => exact hsegment
  | some base =>
    rw [streams, toList_idText, List.splitOn_append_cons_self, hsegment]
    rfl

theorem streams_injective {id id' : String} (h : streams id = streams id') : id = id' :=
  String.toList_inj.mp (SplitLists.splitOn_injective '/' h)

theorem idText_injective (h : Unseparated scope) (h' : Unseparated scope')
    (heq : idText scope index base = idText scope' index' base') : scope = scope' ∧ index = index' ∧ base = base' := by
  have hstreams := congrArg streams heq
  rw [streams_idText h, streams_idText h'] at hstreams
  obtain ⟨hbases,hsegments⟩ := List.append_inj' hstreams rfl
  obtain ⟨hscope,hindex⟩ := segment_injective h h' (String.toList_inj.mp (List.cons.inj hsegments).1)
  refine ⟨hscope,hindex,?_⟩
  -- an id has a segment, so no base has none
  have hne : ∀ id : String, streams id ≠ [] := fun id => List.splitOn_ne_nil '/' id.toList
  cases base with
  | none =>
    cases base' with
    | none => rfl
    | some id' => exact absurd hbases.symm (hne id')
  | some id =>
    cases base' with
    | none => exact absurd hbases (hne id)
    | some id' => exact congrArg some (streams_injective hbases)

theorem leaf_idText (h : Unseparated scope) (hindex : index.Converts) (base : Option String) :
    leaf (idText scope index base) = .ok (scope,index) := by
  have hlast : (streams (idText scope index base)).getLastD [] = (segment scope index).toList := by
    rw [streams_idText h]
    simp
  unfold leaf
  rw [hlast, splitOn_segment h]
  dsimp only
  rw [String.ofList_toList]
  cases index with
  | skip => exact if_pos rfl
  | int i =>
    have hskip : (Index.int i).str.toList ≠ skipToken.toList := fun heq => toString_ne_skip i (String.toList_inj.mp heq)
    have hint : intOfText (Index.int i).str.toList = some i := intOfText_toString hindex
    rw [if_neg hskip, hint]

theorem new_eq_some : new scope index base = some id ↔ index.Converts ∧ idText scope index base = id := by
  unfold new
  split
  · rename_i hindex
    rw [Option.some.injEq, and_iff_right hindex]
  · rename_i hindex
    simp [hindex]

theorem new_injective (h : Unseparated scope) (h' : Unseparated scope') (hnew : new scope index base = some id)
    (hnew' : new scope' index' base' = some id) : scope = scope' ∧ index = index' ∧ base = base' :=
  idText_injective h h' ((new_eq_some.mp hnew).2.trans (new_eq_some.mp hnew').2.symm)

theorem leaf_new (h : Unseparated scope) (hnew : new scope index base = some id) : leaf id = .ok (scope,index) := by
  obtain ⟨hindex,rfl⟩ := new_eq_some.mp hnew
  exact leaf_idText h hindex base

theorem isSome_new (scope : String) (index : Index) (base : Option String) :
    (new scope index base).isSome ↔ index.Converts := by
  unfold new
  split <;> simp [*]

/-- The ids of streams that are opened under refs determine what they are made of, and `leaf` finds the last of it. -/
structure Invertible : Prop where
  defined : ∀ (scope : String) (index : Index) (base : Option String), (new scope index base).isSome ↔ index.Converts
  new_injective : ∀ {scope scope' : String} {index index' : Index} {base base' : Option String} {id : String},
    isSlug scope → isSlug scope' → new scope index base = some id → new scope' index' base' = some id →
      scope = scope' ∧ index = index' ∧ base = base'
  skip_injective : ∀ {scope scope' : String} {base base' : Option String} {id : String}, isSlug scope → isSlug scope' →
    skip scope base = some id → skip scope' base' = some id → scope = scope' ∧ base = base'
  leaf_new : ∀ {scope : String} {index : Index} {base : Option String} {id : String}, isSlug scope →
    new scope index base = some id → leaf id = .ok (scope,index)
  leaf_skip : ∀ {scope : String} {base : Option String} {id : String}, isSlug scope →
    skip scope base = some id → leaf id = .ok (scope,.skip)

theorem invertible : Invertible where
  defined := isSome_new
  new_injective h h' hnew hnew' := new_injective (unseparated_of_isSlug h) (unseparated_of_isSlug h') hnew hnew'
  skip_injective h h' hnew hnew' := by
    obtain ⟨hscope,-,hbase⟩ := new_injective (unseparated_of_isSlug h) (unseparated_of_isSlug h') hnew hnew'
    exact ⟨hscope,hbase⟩
  leaf_new h hnew := leaf_new (unseparated_of_isSlug h) hnew
  leaf_skip h hnew := leaf_new (unseparated_of_isSlug h) hnew

theorem base_prefix (scope : String) (index : Index) (base : String) :
    base.toList <+: (idText scope index (some base)).toList ∧ base ≠ idText scope index (some base) := by
  have hlist := toList_idText scope index base
  refine ⟨⟨_,hlist.symm⟩,?_⟩
  intro heq
  have hlength := congrArg List.length (congrArg String.toList heq)
  rw [hlist, List.length_append, List.length_cons] at hlength
  omega

end
end StreamIds
end Allama
