import Mathlib.Data.List.Basic
import Mathlib.Logic.Function.Basic

/-! Heaps of dicts and lists that hold references to each other, and what is seen of a value through them. -/
namespace ObjectHeaps

inductive Cell (A : Type)
  | atom (a : A)
  | ref (address : ℕ)

/-- A dict is what it has under each key; the order of the keys is not seen. -/
inductive Object (K A : Type)
  | dict (entries : K → Option (Cell A))
  | list (elements : List (Cell A))

abbrev Heap (K A : Type) := List (Object K A)

inductive Step (K : Type)
  | key (k : K)
  | index (i : ℕ)
  deriving DecidableEq

inductive Kind (A : Type)
  | atom (a : A)
  | dict
  | list (length : ℕ)

variable {K A : Type}

def child (h : Heap K A) : Cell A → Step K → Option (Cell A)
  | .atom _, _ => none
  | .ref a, .key k =>
    match h[a]? with
    | some (.dict entries) => entries k
    | _ => none
  | .ref a, .index i =>
    match h[a]? with
    | some (.list elements) => elements[i]?
    | _ => none

/-- The value at the end of a path. -/
def follow (h : Heap K A) : Cell A → List (Step K) → Option (Cell A)
  | v, [] => some v
  | v, step :: path => (child h v step).bind fun w => follow h w path

def kind (h : Heap K A) : Cell A → Option (Kind A)
  | .atom a => some (.atom a)
  | .ref a =>
    match h[a]? with
    | some (.dict _) => some .dict
    | some (.list elements) => some (.list elements.length)
    | none => none

def observe (h : Heap K A) (v : Cell A) (path : List (Step K)) : Option (Kind A) := (follow h v path).bind (kind h)

def Cell.Below (n : ℕ) : Cell A → Prop
  | .atom _ => True
  | .ref a => a < n

def Object.Holds (o : Object K A) (v : Cell A) : Prop :=
  match o with
  | .dict entries => ∃ k, entries k = some v
  | .list elements => v ∈ elements

/-- Every reference in the heap is to an object of it. -/
def Closed (h : Heap K A) : Prop := ∀ (a : ℕ) (o : Object K A), h[a]? = some o → ∀ v, o.Holds v → v.Below h.length

theorem Cell.Below.mono {m n : ℕ} {v : Cell A} (h : v.Below m) (hle : m ≤ n) : v.Below n := by
  cases v with
  | atom a => exact trivial
  | ref a => exact Nat.lt_of_lt_of_le h hle

theorem child_cases {h : Heap K A} {v w : Cell A} {step : Step K} (hw : child h v step = some w) :
    ∃ a o, v = .ref a ∧ h[a]? = some o ∧ o.Holds w := by
  cases v with
  | atom a => cases hw
  | ref a =>
    cases step with
    | key k =>
      unfold child at hw
      dsimp only at hw
      split at hw
      · rename_i entries ho
        exact ⟨a,_,rfl,ho,⟨k,hw⟩⟩
      · cases hw
    | index i =>
      unfold child at hw
      dsimp only at hw
      split at hw
      · rename_i elements ho
        exact ⟨a,_,rfl,ho,List.mem_of_getElem? hw⟩
      · cases hw

theorem child_congr {h h' : Heap K A} {a : ℕ} (hsame : h'[a]? = h[a]?) (step : Step K) :
    child h' (.ref a) step = child h (.ref a) step := by
  cases step with
  | key k =>
    unfold child
    dsimp only
    rw [hsame]
  | index i =>
    unfold child
    dsimp only
    rw [hsame]

theorem kind_congr {h h' : Heap K A} {v : Cell A} (hsame : ∀ a, v = .ref a → h'[a]? = h[a]?) :
    kind h' v = kind h v := by
  cases v with
  | atom a => rfl
  | ref a =>
    unfold kind
    dsimp only
    rw [hsame a rfl]

theorem child_dict {h : Heap K A} {a : ℕ} {entries : K → Option (Cell A)} (ho : h[a]? = some (.dict entries)) (k : K) :
    child h (.ref a) (.key k) = entries k := by
  unfold child
  dsimp only
  rw [ho]

theorem child_dict_index {h : Heap K A} {a : ℕ} {entries : K → Option (Cell A)} (ho : h[a]? = some (.dict entries)) (i : ℕ) :
    child h (.ref a) (.index i) = none := by
  unfold child
  dsimp only
  rw [ho]

section Entries
variable {h h' : Heap K A} {a b : ℕ} {entries : K → Option (Cell A)} {o : Object K A} {k : K} {v w : Cell A}

theorem getElem?_concat (h : Heap K A) (o : Object K A) : (h ++ [o])[h.length]? = some o := by
  rw [List.getElem?_append_right (Nat.le_refl _), Nat.sub_self]
  rfl

theorem closed_append (hclosed : Closed h) (ho : ∀ v, o.Holds v → v.Below h.length) : Closed (h ++ [o]) := by
  intro b p hb v hv
  have hle : h.length ≤ (h ++ [o]).length := List.length_append ▸ Nat.le_add_right _ _
  by_cases hlow : b < h.length
  · rw [List.getElem?_append_left hlow] at hb
    exact (hclosed b p hb v hv).mono hle
  · rw [List.getElem?_append_right (Nat.le_of_not_lt hlow)] at hb
    obtain rfl := List.mem_singleton.mp (List.mem_of_getElem? hb)
    exact (ho v hv).mono hle

variable [DecidableEq K]

/-- The entry `k` of the dict `a` is set to `v`. -/
structure EntrySet (h h' : Heap K A) (a : ℕ) (entries : K → Option (Cell A)) (k : K) (v : Cell A) : Prop where
  before : h[a]? = some (.dict entries)
  after : h'[a]? = some (.dict (Function.update entries k (some v)))
  other : ∀ b ≠ a, h'[b]? = h[b]?
  length : h'.length = h.length

theorem entrySet (ho : h[a]? = some (.dict entries)) (k : K) (v : Cell A) :
    EntrySet h (h.set a (.dict (Function.update entries k (some v)))) a entries k v :=
  ⟨ho,List.getElem?_set_self (List.getElem?_eq_some_iff.mp ho).1,fun _ hb => List.getElem?_set_ne hb.symm,List.length_set⟩

section
variable (hs : EntrySet h h' a entries k v)
include hs

theorem EntrySet.holds (hb : h'[b]? = some o) (hw : o.Holds w) :
    w = v ∨ ∃ (b' : ℕ) (o' : Object K A), h[b']? = some o' ∧ o'.Holds w := by
  by_cases heq : b = a
  · rw [heq, hs.after] at hb
    cases hb
    obtain ⟨k',hk'⟩ := hw
    by_cases hkk : k' = k
    · rw [hkk, Function.update_self] at hk'
      exact .inl (Option.some.inj hk').symm
    · rw [Function.update_of_ne hkk] at hk'
      exact .inr ⟨a,_,hs.before,k',hk'⟩
  · rw [hs.other b heq] at hb
    exact .inr ⟨b,o,hb,hw⟩

theorem EntrySet.closed (hclosed : Closed h) (hv : v.Below h.length) : Closed h' := by
  intro b o hb w hw
  rw [hs.length]
  obtain rfl | ⟨b',o',ho',hw'⟩ := hs.holds hb hw
  · exact hv
  · exact hclosed b' o' ho' w hw'

theorem EntrySet.child_self : child h' (.ref a) (.key k) = some v := by
  rw [child_dict hs.after, Function.update_self]

theorem EntrySet.child_other {step : Step K} (hstep : step ≠ .key k) : child h' (.ref a) step = child h (.ref a) step := by
  cases step with
  | index i => rw [child_dict_index hs.after, child_dict_index hs.before]
  | key k' =>
    rw [child_dict hs.after, child_dict hs.before]
    exact Function.update_of_ne (fun heq => hstep (congrArg Step.key heq)) _ _

end

end Entries

section Agreement
variable {h h' : Heap K A} {Seen : Cell A → Prop}

theorem follow_congr (hsame : ∀ a, Seen (.ref a) → h'[a]? = h[a]?)
    (hchild : ∀ v step w, Seen v → child h v step = some w → Seen w) {v : Cell A} (hv : Seen v) (path : List (Step K)) :
    follow h' v path = follow h v path ∧ ∀ w, follow h v path = some w → Seen w := by
  induction path generalizing v with
  | nil =>
    refine ⟨rfl,?_⟩
    intro w hw
    exact Option.some.inj hw ▸ hv
  | cons step path ih =>
    have hstep : child h' v step = child h v step := by
      cases v with
      | atom a => rfl
      | ref a => exact child_congr (hsame a hv) step
    unfold follow
    rw [hstep]
    cases hw : child h v step with
    | none =>
      refine ⟨rfl,?_⟩
      intro w hw
      cases hw
    | some w => exact ih (hchild v step w hv hw)

theorem observe_congr (hsame : ∀ a, Seen (.ref a) → h'[a]? = h[a]?)
    (hchild : ∀ v step w, Seen v → child h v step = some w → Seen w) {v : Cell A} (hv : Seen v) (path : List (Step K)) :
    observe h' v path = observe h v path := by
  obtain ⟨hfollow,hseen⟩ := follow_congr hsame hchild hv path
  unfold observe
  rw [hfollow]
  cases hw : follow h v path with
  | none => rfl
  | some w => exact kind_congr fun a ha => hsame a (ha ▸ hseen w hw)

theorem below_child (hclosed : Closed h) (v : Cell A) (step : Step K) (w : Cell A) (_ : v.Below h.length)
    (hw : child h v step = some w) : w.Below h.length := by
  obtain ⟨a,o,rfl,ho,hholds⟩ := child_cases hw
  exact hclosed a o ho w hholds

end Agreement
end ObjectHeaps
