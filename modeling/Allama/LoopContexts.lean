import Mathlib
import Allama.Identifiers
import Allama.ObjectHeaps

/-! The contexts of the iterations of a `for_each`: shallow copies of one base context, each patched in place
before any of the iterations is run. -/
namespace Allama
namespace LoopContexts
open Function ObjectHeaps

inductive PatchError
  | AttributeError
  | TypeError

section Patches
variable {A : Type}

/-- `obj.setdefault(key, {})`: the heap, and the value that is under the key then. -/
def setdefault (h : Heap Text A) (obj : Cell A) (key : Text) : Except PatchError (Heap Text A × Cell A) :=
  match obj with
  | .atom _ => .error .AttributeError
  | .ref a =>
    match h[a]? with
    | some (.dict entries) =>
      match entries key with
      | some value => .ok (h,value)
      | none => .ok (h.set a (.dict (update entries key (some (.ref h.length)))) ++ [.dict fun _ => none],.ref h.length)
    | _ => .error .AttributeError

/-- `obj[key] = value`. -/
def setItem (h : Heap Text A) (obj : Cell A) (key : Text) (value : Cell A) : Except PatchError (Heap Text A) :=
  match obj with
  | .atom _ => .error .TypeError
  | .ref a =>
    match h[a]? with
    | some (.dict entries) => .ok (h.set a (.dict (update entries key (some value))))
    | _ => .error .TypeError

/-- The loop of `patch_object` over the keys of the path. -/
def patchKeys (h : Heap Text A) (obj : Cell A) (value : Cell A) : List Text → Except PatchError (Heap Text A)
  | [] => .ok h
  | [leaf] => setItem h obj leaf value
  | key :: next :: keys =>
    match setdefault h obj key with
    | .error e => .error e
    | .ok (h',obj') => patchKeys h' obj' value (next :: keys)

def patchObject (h : Heap Text A) (obj : Cell A) (path : Text) (value : Cell A) : Except PatchError (Heap Text A) :=
  patchKeys h obj value (path.splitOn '.')

/-- `ExprContext.LOCAL_VARS`. -/
def localVars : Text := ['v','a','r']

/-- The text of a loop variable, such as `.item` or `.pair.left`. -/
def iteratorPath (names : List Text) : Text := names.flatMap fun name => '.' :: name

/-- `zip(*iterators, strict=False)`: each tuple has the path and the value of every loop variable. -/
def zipIterators : List (List Text × List (Cell A)) → List (List (List Text × Cell A))
  | [] => []
  | [(names,collection)] => collection.map fun value => [(names,value)]
  | (names,collection) :: iterator :: rest =>
    List.zipWith (fun value items => (names,value) :: items) collection (zipIterators (iterator :: rest))

/-- `base_context.copy()`. -/
def copyContext (h : Heap Text A) (base_context : ℕ) : Heap Text A × ℕ :=
  match h[base_context]? with
  | some o => (h ++ [o],h.length)
  | none => (h,base_context)

def patchItems (h : Heap Text A) (context : ℕ) : List (List Text × Cell A) → Except PatchError (Heap Text A)
  | [] => .ok h
  | (names,value) :: items =>
    match patchObject h (.ref context) (localVars ++ iteratorPath names) value with
    | .error e => .error e
    | .ok h' => patchItems h' context items

/-- The loop of `dispatch_action`: the tasks that it creates run after it, on the heap that it leaves. -/
def dispatchContexts (h : Heap Text A) (base_context : ℕ) :
    List (List (List Text × Cell A)) → Except PatchError (Heap Text A × List ℕ)
  | [] => .ok (h,[])
  | items :: rest =>
    match patchItems (copyContext h base_context).1 (copyContext h base_context).2 items with
    | .error e => .error e
    | .ok h' =>
      match dispatchContexts h' base_context rest with
      | .error e => .error e
      | .ok (h'',contexts) => .ok (h'',(copyContext h base_context).2 :: contexts)

/-- What is seen with another value at the end of a path, and dicts on the way to it. -/
def assign {R S : Type} [DecidableEq S] (made : R) (seen : List (Step S) → Option R) (names : List S)
    (value : List (Step S) → Option R) (path : List (Step S)) : Option R :=
  if names.map Step.key <+: path then value (path.drop names.length)
  else if path <+: names.map Step.key then some made
  else seen path

/-- The base context with the loop variables bound to the elements of one iteration. -/
def boundContext (h : Heap Text A) (base_context : ℕ) (items : List (List Text × Cell A)) :
    List (Step Text) → Option (Kind A) :=
  items.foldl (fun seen item => assign .dict seen (localVars :: item.1) (observe h item.2)) (observe h (.ref base_context))

end Patches

section Assignments
variable {R S : Type} [DecidableEq S] {made : R} {seen seen' value : List (Step S) → Option R}

theorem assign_nil (path : List (Step S)) : assign made seen [] value path = value path := by
  exact if_pos List.nil_prefix

theorem assign_root (k : S) (ks : List S) : assign made seen (k :: ks) value [] = some made := by
  unfold assign
  rw [List.map_cons,if_neg fun h => absurd (List.prefix_nil.mp h) (List.cons_ne_nil _ _)]
  exact if_pos List.nil_prefix

theorem assign_same (k : S) (ks : List S) (path : List (Step S)) :
    assign made seen (k :: ks) value (.key k :: path) = assign made (fun rest => seen (.key k :: rest)) ks value path := by
  unfold assign
  rw [List.map_cons]
  simp only [List.cons_prefix_cons,true_and,List.length_cons,List.drop_succ_cons]

theorem assign_other {k : S} {step : Step S} (h : step ≠ .key k) (ks : List S) (path : List (Step S)) :
    assign made seen (k :: ks) value (step :: path) = seen (step :: path) := by
  unfold assign
  rw [List.map_cons,if_neg (fun hp => h (List.cons_prefix_cons.mp hp).1.symm),
    if_neg (fun hp => h (List.cons_prefix_cons.mp hp).1)]

theorem assign_congr {ks : List S} (hks : ks ≠ []) (h : ∀ path, path ≠ [] → seen path = seen' path) (path : List (Step S)) :
    assign made seen ks value path = assign made seen' ks value path := by
  cases path with
  | nil =>
    cases ks with
    | nil => exact absurd rfl hks
    | cons k ks => rw [assign_root,assign_root]
  | cons step path =>
    unfold assign
    rw [h (step :: path) (List.cons_ne_nil _ _)]

end Assignments

section Own
variable {A : Type} {old h h' : Heap Text A} {label : ℕ → List Text} {a : ℕ} {value : Cell A}

def shade (lo : ℕ) : Cell A → Option (Cell A)
  | .atom x => some (.atom x)
  | .ref a => if a < lo then some (.ref a) else none

def sketch (h : Heap Text A) (lo : ℕ) (v : Cell A) (path : List (Step Text)) : Option (Option (Cell A)) :=
  (follow h v path).map (shade lo)

/-- The heap `old` with dicts of one iteration above it: each is reached by its label only, and what is set in it
otherwise is of the old heap. -/
structure Grown (old h : Heap Text A) (label : ℕ → List Text) : Prop where
  le : old.length ≤ h.length
  kept : ∀ a < old.length, h[a]? = old[a]?
  own : ∀ a, old.length ≤ a → a < h.length → ∃ entries, h[a]? = some (.dict entries) ∧
    ∀ k v, entries k = some v → v.Below h.length ∧ ∀ b, v = .ref b → old.length ≤ b → label b = label a ++ [k]

/-- A value of the old heap, or an own dict at or under a label. -/
def SeenUnder (old h : Heap Text A) (label : ℕ → List Text) (under : List Text) (v : Cell A) : Prop :=
  v.Below old.length ∨ ∃ b, v = .ref b ∧ old.length ≤ b ∧ b < h.length ∧ under <+: label b

theorem shade_below {lo : ℕ} {v : Cell A} (h : v.Below lo) : shade lo v = some v := by
  cases v with
  | atom x => rfl
  | ref a => exact if_pos h

theorem shade_own {lo a : ℕ} (h : lo ≤ a) : shade (A := A) lo (.ref a) = none := if_neg (Nat.not_lt.mpr h)

theorem Grown.seen_child (hg : Grown old h label) (ha : old.length ≤ a) (hlt : a < h.length) {step : Step Text} {w : Cell A}
    (hw : child h (.ref a) step = some w) : ∃ k, step = .key k ∧ SeenUnder old h label (label a ++ [k]) w := by
  obtain ⟨entries,ho,hentries⟩ := hg.own a ha hlt
  cases step with
  | index i =>
    rw [child_dict_index ho] at hw
    cases hw
  | key k =>
    refine ⟨k,rfl,?_⟩
    rw [child_dict ho] at hw
    obtain ⟨hbelow,hlabel⟩ := hentries k w hw
    cases w with
    | atom x => exact .inl trivial
    | ref b =>
      by_cases hb : b < old.length
      · exact .inl hb
      · have hle := Nat.le_of_not_lt hb
        exact .inr ⟨b,rfl,hle,hbelow,(hlabel b rfl hle) ▸ List.prefix_rfl⟩

section
variable (hclosed : Closed old) (hg : Grown old h label)
include hclosed hg

theorem Grown.seen_step {under : List Text} (v : Cell A) (step : Step Text) (w : Cell A)
    (hv : SeenUnder old h label under v) (hw : child h v step = some w) : SeenUnder old h label under w := by
  obtain hbelow | ⟨b,rfl,hb,hlt,hunder⟩ := hv
  · left
    apply below_child hclosed v step w hbelow
    rw [← hw]
    cases v with
    | atom x => rfl
    | ref a => exact (child_congr (hg.kept a hbelow) step).symm
  · obtain ⟨k,-,hseen | ⟨c,rfl,hc,hclt,hlabel⟩⟩ := hg.seen_child hb hlt hw
    · exact .inl hseen
    · exact .inr ⟨c,rfl,hc,hclt,(hunder.trans (List.prefix_append _ _)).trans hlabel⟩

theorem Grown.sketch_congr {under : List Text} (hkept : ∀ a < old.length, h'[a]? = h[a]?)
    (hsame : ∀ b < h.length, old.length ≤ b → under <+: label b → h'[b]? = h[b]?) {v : Cell A}
    (hv : SeenUnder old h label under v) (path : List (Step Text)) :
    sketch h' old.length v path = sketch h old.length v path := by
  have hagree : ∀ a, SeenUnder old h label under (.ref a) → h'[a]? = h[a]? := by
    intro a ha
    obtain hbelow | ⟨b,hb,hle,hlt,hunder⟩ := ha
    · exact hkept a hbelow
    · cases hb
      exact hsame a hlt hle hunder
  unfold sketch
  rw [(follow_congr hagree (hg.seen_step hclosed) hv path).1]

theorem Grown.sketch_old (hv : value.Below old.length) (path : List (Step Text)) :
    sketch h old.length value path = sketch old old.length value path := by
  unfold sketch
  rw [(@follow_congr _ _ old h (fun v => v.Below old.length) hg.kept (below_child hclosed) _ hv path).1]

end

theorem not_under_other {under : List Text} {k k' : Text} (hne : k' ≠ k) {label : List Text}
    (h : under ++ [k'] <+: label) : ¬ under ++ [k] <+: label := by
  intro h'
  have heq := List.IsPrefix.eq_of_length (List.prefix_of_prefix_length_le h h' (by simp)) (by simp)
  exact hne (List.singleton_inj.mp (List.append_cancel_left heq))

theorem Grown.sketch_other (hclosed : Closed old) (hg : Grown old h label) (ha : old.length ≤ a) (hlt : a < h.length) {k : Text}
    (hkept : ∀ a < old.length, h'[a]? = h[a]?)
    (hsame : ∀ b < h.length, old.length ≤ b → b ≠ a → ¬ label a ++ [k] <+: label b → h'[b]? = h[b]?) {step : Step Text}
    (hstep : step ≠ .key k) (hchild : child h' (.ref a) step = child h (.ref a) step) (path : List (Step Text)) :
    sketch h' old.length (.ref a) (step :: path) = sketch h old.length (.ref a) (step :: path) := by
  unfold sketch follow
  rw [hchild]
  cases hw : child h (.ref a) step with
  | none => rfl
  | some w =>
    obtain ⟨k',rfl,hseen⟩ := hg.seen_child ha hlt hw
    apply hg.sketch_congr hclosed hkept _ hseen path
    intro b hb hle hunder
    apply hsame b hb hle
    · -- the label of a dict is not under a longer one
      rintro rfl
      have := hunder.length_le
      rw [List.length_append] at this
      exact absurd this (by simp)
    · exact not_under_other (fun heq => hstep (congrArg Step.key heq)) hunder

/-- On the way to the end of a path there is no value of the old heap. -/
def Free (h : Heap Text A) (lo : ℕ) (v : Cell A) (ks : List Text) : Prop :=
  ∀ q, q <+: ks → q ≠ ks → ∀ w, sketch h lo v (q.map .key) ≠ some (some w)

theorem setItem_ok {entries : Text → Option (Cell A)} (ho : h[a]? = some (.dict entries)) (k : Text) (value : Cell A) :
    ∃ h', setItem h (.ref a) k value = .ok h' ∧ EntrySet h h' a entries k value := by
  refine ⟨_,?_,entrySet ho k value⟩
  unfold setItem
  dsimp only
  rw [ho]

theorem exists_of_setItem {obj : Cell A} {k : Text} (hset : setItem h obj k value = .ok h') :
    ∃ a entries, obj = .ref a ∧ h[a]? = some (.dict entries) := by
  cases obj with
  | atom x => cases hset
  | ref a =>
    unfold setItem at hset
    dsimp only at hset
    split at hset
    · rename_i entries ho
      exact ⟨a,entries,rfl,ho⟩
    · cases hset

theorem exists_of_setdefault {obj obj' : Cell A} {k : Text} (hset : setdefault h obj k = .ok (h',obj')) :
    ∃ a entries, obj = .ref a ∧ h[a]? = some (.dict entries) := by
  cases obj with
  | atom x => cases hset
  | ref a =>
    unfold setdefault at hset
    dsimp only at hset
    split at hset
    · rename_i entries ho
      exact ⟨a,entries,rfl,ho⟩
    · cases hset

theorem setdefault_of_child {obj w : Cell A} {k : Text} (hchild : child h obj (.key k) = some w) :
    setdefault h obj k = .ok (h,w) := by
  cases obj with
  | atom x => cases hchild
  | ref a =>
    unfold child at hchild
    unfold setdefault
    dsimp only at hchild ⊢
    split at hchild
    · rename_i entries ho
      rw [ho]
      dsimp only
      rw [hchild]
    · cases hchild

theorem setdefault_of_none {entries : Text → Option (Cell A)} {k : Text} (ho : h[a]? = some (.dict entries))
    (hk : entries k = none) : ∃ h', setdefault h (.ref a) k = .ok (h',.ref h.length) ∧
      EntrySet (h ++ [.dict fun _ => none]) h' a entries k (.ref h.length) := by
  have hlt : a < h.length := (List.getElem?_eq_some_iff.mp ho).1
  refine ⟨_,?_,entrySet ((List.getElem?_append_left hlt).trans ho) k _⟩
  unfold setdefault
  dsimp only
  rw [ho]
  dsimp only
  rw [hk, List.set_append_left _ _ hlt]

theorem Grown.append (hg : Grown old h label) {label' : ℕ → List Text} (hlabels : ∀ c < h.length, label' c = label c) :
    Grown old (h ++ [.dict fun _ => none]) label' := by
  have hle : h.length ≤ (h ++ [Object.dict fun _ => none]).length := List.length_append ▸ Nat.le_add_right _ _
  refine ⟨hg.le.trans hle,fun c hc => ?_,fun c hc hclt => ?_⟩
  · rw [List.getElem?_append_left (hc.trans_le hg.le)]
    exact hg.kept c hc
  · obtain hcold | rfl : c < h.length ∨ c = h.length := by
      rw [List.length_append, List.length_singleton] at hclt
      omega
    · obtain ⟨entries,ho,hentries⟩ := hg.own c hc hcold
      refine ⟨entries,(List.getElem?_append_left hcold).trans ho,fun k v hv => ?_⟩
      obtain ⟨hbelow,hlabel⟩ := hentries k v hv
      refine ⟨hbelow.mono hle,?_⟩
      rintro b rfl hb
      rw [hlabels b hbelow, hlabels c hcold]
      exact hlabel b rfl hb
    · exact ⟨_,getElem?_concat h _,fun _ _ hv => nomatch hv⟩

theorem Grown.set (hg : Grown old h label) (ha : old.length ≤ a) {entries : Text → Option (Cell A)} {k : Text} {v : Cell A}
    (hs : EntrySet h h' a entries k v) (hbelow : v.Below h.length)
    (hlabel : ∀ b, v = .ref b → old.length ≤ b → label b = label a ++ [k]) : Grown old h' label := by
  refine ⟨hs.length ▸ hg.le,fun b hb => ?_,fun b hb hblt => ?_⟩
  · rw [hs.other b (hb.trans_le ha).ne]
    exact hg.kept b hb
  · rw [hs.length] at hblt ⊢
    by_cases heq : b = a
    · subst heq
      obtain ⟨entries',ho,hentries⟩ := hg.own b hb hblt
      cases hs.before.symm.trans ho
      refine ⟨_,hs.after,fun k' v' hv => ?_⟩
      by_cases hk : k' = k
      · subst hk
        rw [update_self] at hv
        cases hv
        exact ⟨hbelow,hlabel⟩
      · rw [update_of_ne hk] at hv
        exact hentries k' v' hv
    · rw [hs.other b heq]
      exact hg.own b hb hblt

theorem setItem_grown (hclosed : Closed old) (hg : Grown old h label) (ha : old.length ≤ a) (hlt : a < h.length)
    (hvalue : value.Below old.length) (k : Text) :
    ∃ h', setItem h (.ref a) k value = .ok h' ∧ Grown old h' label ∧ h.length = h'.length ∧
      (∀ b < h.length, b ≠ a → h'[b]? = h[b]?) ∧
      ∀ path, sketch h' old.length (.ref a) path =
        assign none (sketch h old.length (.ref a)) [k] (sketch old old.length value) path := by
  obtain ⟨entries,ho,-⟩ := hg.own a ha hlt
  obtain ⟨h',hset,hs⟩ := setItem_ok ho k value
  have hgrown : Grown old h' label := by
    apply hg.set ha hs (hvalue.mono hg.le)
    rintro b rfl hb
    exact absurd hvalue (Nat.not_lt.mpr hb)
  refine ⟨h',hset,hgrown,hs.length.symm,fun b _ hb => hs.other b hb,fun path => ?_⟩
  cases path with
  | nil =>
    rw [assign_root]
    exact congrArg some (shade_own ha)
  | cons step path =>
    by_cases hstep : step = .key k
    · subst hstep
      rw [assign_same, assign_nil, ← hgrown.sketch_old hclosed hvalue path]
      unfold sketch
      rw [follow, hs.child_self]
      rfl
    · rw [assign_other hstep]
      exact hg.sketch_other hclosed ha hlt (fun b hb => hs.other b (hb.trans_le ha).ne) (fun b _ _ hb _ => hs.other b hb)
        hstep (hs.child_other hstep) path

/-- An own dict `b` is under the key `k` of `a`, and all else is as it was. -/
structure Opened (old h h' : Heap Text A) (label label' : ℕ → List Text) (a b : ℕ) (k : Text) : Prop where
  grown : Grown old h' label'
  le : h.length ≤ h'.length
  labels : ∀ c < h.length, label' c = label c
  own : old.length ≤ b
  lt : b < h'.length
  label : label' b = label a ++ [k]
  child : child h' (.ref a) (.key k) = some (.ref b)
  children : ∀ step, step ≠ .key k → ObjectHeaps.child h' (.ref a) step = ObjectHeaps.child h (.ref a) step
  other : ∀ c < h.length, c ≠ a → h'[c]? = h[c]?
  sketch : ∀ path, path ≠ [] →
    LoopContexts.sketch h' old.length (.ref b) path = LoopContexts.sketch h old.length (.ref a) (.key k :: path)

section
variable (hg : Grown old h label) (ha : old.length ≤ a)
include hg ha

theorem opened_of_child (hlt : a < h.length) {k : Text} {v : Cell A} (hchild : child h (.ref a) (.key k) = some v)
    (hfree : ∀ w, sketch h old.length (.ref a) [.key k] ≠ some (some w)) :
    ∃ b, v = .ref b ∧ Opened old h h label label a b k := by
  obtain ⟨entries,ho,hentries⟩ := hg.own a ha hlt
  obtain ⟨hbelow,hlabel⟩ := hentries k v ((child_dict ho k).symm.trans hchild)
  have hleaf : ∀ w, shade old.length v ≠ some w := by
    intro w hw
    apply hfree w
    unfold sketch follow
    rw [hchild]
    exact congrArg some hw
  cases v with
  | atom x => exact absurd rfl (hleaf (.atom x))
  | ref b =>
    have hb : old.length ≤ b := by
      by_contra hlow
      exact hleaf (.ref b) (shade_below (Nat.lt_of_not_le hlow))
    refine ⟨b,rfl,hg,Nat.le_refl _,fun _ _ => rfl,hb,hbelow,hlabel b rfl hb,hchild,fun _ _ => rfl,fun _ _ _ => rfl,?_⟩
    intro path _
    unfold sketch
    rw [follow, hchild]
    rfl

theorem opened_of_none {entries : Text → Option (Cell A)} {k : Text} (ho : h[a]? = some (.dict entries))
    (hk : entries k = none) (hs : EntrySet (h ++ [.dict fun _ => none]) h' a entries k (.ref h.length)) :
    Opened old h h' label (update label h.length (label a ++ [k])) a h.length k := by
  have hlt : a < h.length := (List.getElem?_eq_some_iff.mp ho).1
  have hlength : h'.length = h.length + 1 := by
    rw [hs.length, List.length_append]
    rfl
  have hother : ∀ c < h.length, c ≠ a → h'[c]? = h[c]? :=
    fun c hc hne => (hs.other c hne).trans (List.getElem?_append_left hc)
  have hnew : h'[h.length]? = some (.dict fun _ => none) := (hs.other _ hlt.ne').trans (getElem?_concat h _)
  have hlabels : ∀ c < h.length, update label h.length (label a ++ [k]) c = label c :=
    fun c hc => update_of_ne hc.ne _ _
  refine ⟨(hg.append hlabels).set ha hs (hs.length ▸ hlength ▸ Nat.lt_succ_self _) ?_,hlength ▸ Nat.le_succ _,hlabels,hg.le,
    hlength ▸ Nat.lt_succ_self _,update_self _ _ _,hs.child_self,?_,hother,?_⟩
  · intro b hb _
    cases hb
    rw [update_self, hlabels a hlt]
  · intro step hstep
    exact (hs.child_other hstep).trans (child_congr (List.getElem?_append_left hlt) step)
  · intro path hpath
    cases path with
    | nil => exact absurd rfl hpath
    | cons step path =>
      unfold sketch
      rw [follow, follow, child_dict ho, hk]
      cases step with
      | index i =>
        rw [child_dict_index hnew]
        rfl
      | key k' =>
        rw [child_dict hnew]
        rfl

theorem setdefault_grown (hlt : a < h.length) {k : Text}
    (hfree : ∀ w, sketch h old.length (.ref a) [.key k] ≠ some (some w)) :
    ∃ h' label' b, setdefault h (.ref a) k = .ok (h',.ref b) ∧ Opened old h h' label label' a b k := by
  obtain ⟨entries,ho,-⟩ := hg.own a ha hlt
  cases hk : entries k with
  | some v =>
    have hchild : child h (.ref a) (.key k) = some v := (child_dict ho k).trans hk
    obtain ⟨b,rfl,hopened⟩ := opened_of_child hg ha hlt hchild hfree
    exact ⟨h,label,b,setdefault_of_child hchild,hopened⟩
  | none =>
    obtain ⟨h',hdefault,hs⟩ := setdefault_of_none ho hk
    exact ⟨h',_,h.length,hdefault,opened_of_none hg ha ho hk hs⟩

end

/-- A patch that meets no value of the old heap on its way binds its path and changes nothing else. -/
theorem patchKeys_grown (hclosed : Closed old) (hvalue : value.Below old.length) {ks : List Text} (hks : ks ≠ []) :
    ∀ {h : Heap Text A} {label : ℕ → List Text} {a : ℕ}, Grown old h label → old.length ≤ a → a < h.length →
      Free h old.length (.ref a) ks →
      ∃ h' label', patchKeys h (.ref a) value ks = .ok h' ∧ Grown old h' label' ∧ h.length ≤ h'.length ∧
        (∀ b < h.length, label' b = label b) ∧
        (∀ b < h.length, old.length ≤ b → ¬ label a <+: label b → h'[b]? = h[b]?) ∧
        ∀ path, sketch h' old.length (.ref a) path =
          assign none (sketch h old.length (.ref a)) ks (sketch old old.length value) path := by
  induction ks with
  | nil => exact absurd rfl hks
  | cons k ks ih =>
    intro h label a hg ha hlt hfree
    cases ks with
    | nil =>
      obtain ⟨h',hset,hg',hlength,hother,hsketch⟩ := setItem_grown hclosed hg ha hlt hvalue k
      refine ⟨h',label,hset,hg',hlength.le,fun _ _ => rfl,?_,hsketch⟩
      intro b hb _ hunder
      apply hother b hb
      rintro rfl
      exact hunder List.prefix_rfl
    | cons next keys =>
      have hkey : ∀ w, sketch h old.length (.ref a) [.key k] ≠ some (some w) :=
        hfree [k] (List.cons_prefix_cons.mpr ⟨rfl,List.nil_prefix⟩) (by simp)
      obtain ⟨h₁,label₁,b,hdefault,hg₁,hle₁,hlabels₁,hb,hblt,hlabel,hchild,hchildren,hother₁,hsketch₁⟩ :=
        setdefault_grown hg ha hlt hkey
      have hfree₁ : Free h₁ old.length (.ref b) (next :: keys) := by
        intro q hq hne w
        cases q with
        | nil =>
          intro hroot
          have hshade : some (shade old.length (.ref b : Cell A)) = some (some w) := hroot
          rw [shade_own hb] at hshade
          cases hshade
        | cons k' q =>
          rw [hsketch₁ _ (by simp)]
          exact hfree (k :: k' :: q) (List.cons_prefix_cons.mpr ⟨rfl,hq⟩) (fun heq => hne (List.cons.inj heq).2) w
      obtain ⟨h',label',hpatch,hg',hle',hlabels',hother',hsketch'⟩ :=
        ih (List.cons_ne_nil _ _) hg₁ hb hblt hfree₁
      have hlabela : label₁ a = label a := hlabels₁ a hlt
      -- the dict of the key is under the label of this one, which the rest of the patch leaves alone
      have hnotunder : ¬ label₁ b <+: label₁ a := by
        rw [hlabel,hlabela]
        intro hp
        have := hp.length_le
        rw [List.length_append] at this
        exact absurd this (by simp)
      have hselfkept : h'[a]? = h₁[a]? := hother' a (by omega) ha hnotunder
      refine ⟨h',label',?_,hg',by omega,?_,?_,?_⟩
      · rw [patchKeys,hdefault]
        exact hpatch
      · intro c hc
        rw [hlabels' c (by omega),hlabels₁ c hc]
      · intro c hc hcle hunder
        have hne : c ≠ a := by
          rintro rfl
          exact hunder List.prefix_rfl
        rw [hother' c (by omega) hcle,hother₁ c hc hne]
        rw [hlabel,hlabels₁ c hc]
        exact fun hp => hunder ((List.prefix_append _ _).trans hp)
      · intro path
        cases path with
        | nil =>
          rw [assign_root]
          exact congrArg some (shade_own ha)
        | cons step path =>
          by_cases hstep : step = .key k
          · subst hstep
            rw [assign_same]
            have hdown : sketch h' old.length (.ref a) (.key k :: path) = sketch h' old.length (.ref b) path := by
              unfold sketch
              rw [follow,child_congr hselfkept,hchild]
              rfl
            rw [hdown,hsketch' path]
            exact assign_congr (List.cons_ne_nil _ _) hsketch₁ path
          · rw [assign_other hstep]
            apply hg.sketch_other hclosed ha hlt _ _ hstep
            · rw [child_congr hselfkept]
              exact hchildren step hstep
            · intro c hc
              rw [hg'.kept c hc,hg.kept c hc]
            · intro c hc hcle hne hunder
              rw [hother' c (by omega) hcle,hother₁ c hc hne]
              rw [hlabel,hlabels₁ c hc]
              exact hunder

end Own

section Paths

/-- The names of a loop variable: at least one, and none with a dot. -/
def IteratorNames (names : List Text) : Prop := names ≠ [] ∧ ∀ name ∈ names, '.' ∉ name

/-- A loop variable whose path goes on from that of an earlier one, so that it is to be set inside its element. -/
def Clashes (earlier later : List Text) : Prop := earlier <+: later ∧ earlier ≠ later

theorem localVars_iteratorPath (names : List Text) :
    localVars ++ iteratorPath names = ['.'].intercalate (localVars :: names) := by
  generalize localVars = first
  induction names generalizing first with
  | nil => simp [iteratorPath,List.intercalate]
  | cons name names ih =>
    rw [List.intercalate_cons_cons,← ih name]
    simp [iteratorPath]

theorem splitOn_iteratorPath {names : List Text} (h : IteratorNames names) :
    (localVars ++ iteratorPath names).splitOn '.' = localVars :: names := by
  rw [localVars_iteratorPath]
  apply List.splitOn_intercalate
  · intro name hname
    obtain rfl | hrest := List.mem_cons.mp hname
    · decide
    · exact h.2 name hrest
  · exact List.cons_ne_nil _ _

theorem prefix_map_key {p q : List Text} : p.map Step.key <+: q.map Step.key ↔ p <+: q :=
  List.prefix_map_iff_of_injective fun _ _ => Step.key.inj

end Paths

section Iterations
variable {A : Type} {old h h' : Heap Text A} {label : ℕ → List Text} {root : ℕ}

/-- What the own dicts of an iteration show once `items` are set. -/
def sketchItems (old : Heap Text A) (base : List (Step Text) → Option (Option (Cell A)))
    (items : List (List Text × Cell A)) : List (Step Text) → Option (Option (Cell A)) :=
  items.foldl (fun seen item => assign none seen (localVars :: item.1) (sketch old old.length item.2)) base

theorem sketchItems_concat (base : List (Step Text) → Option (Option (Cell A))) (items : List (List Text × Cell A))
    (item : List Text × Cell A) :
    sketchItems old base (items ++ [item]) =
      assign none (sketchItems old base items) (localVars :: item.1) (sketch old old.length item.2) := List.foldl_concat _ _ _ _

theorem assign_at (seen value : List (Step Text) → Option (Option (Cell A))) (p q : List Text) :
    assign none seen (localVars :: p) value ((localVars :: q).map .key) =
      if p <+: q then value ((q.map .key).drop p.length) else if q <+: p then some none
        else seen ((localVars :: q).map .key) := by
  rw [List.map_cons,assign_same]
  unfold assign
  simp only [prefix_map_key]

theorem exists_of_sketchItems {base : List (Step Text) → Option (Option (Cell A))}
    (hbase : ∀ q : List Text, base ((localVars :: q).map .key) = none) {items : List (List Text × Cell A)} {q : List Text}
    {w : Cell A} (h : sketchItems old base items ((localVars :: q).map .key) = some (some w)) :
    ∃ item ∈ items, item.1 <+: q := by
  induction items using List.reverseRecOn with
  | nil =>
    rw [show sketchItems old base [] = base from rfl,hbase q] at h
    cases h
  | append_singleton items item ih =>
    rw [sketchItems_concat,assign_at] at h
    split_ifs at h with hp hq
    · exact ⟨item,List.mem_append_right _ List.mem_cons_self,hp⟩
    · cases h
    · obtain ⟨other,hother,habove⟩ := ih h
      exact ⟨other,List.mem_append_left _ hother,habove⟩

/-- With atoms for elements, a path that clashes has an atom on its way. -/
theorem atom_of_clash {base : List (Step Text) → Option (Option (Cell A))}
    (hbase : ∀ q : List Text, base ((localVars :: q).map .key) = none) {items : List (List Text × Cell A)} {x : A}
    (hatoms : ∀ item ∈ items, item.2 = .atom x) (hpairs : (items.map Prod.fst).Pairwise fun p q => ¬ Clashes p q)
    {p : List Text} (hclash : ∃ item ∈ items, Clashes item.1 p) :
    ∃ q, Clashes q p ∧ sketchItems old base items ((localVars :: q).map .key) = some (some (.atom x)) := by
  induction items using List.reverseRecOn with
  | nil =>
    obtain ⟨item,hitem,-⟩ := hclash
    cases hitem
  | append_singleton items item ih =>
    rw [List.map_append,List.pairwise_append] at hpairs
    obtain ⟨hpairs,-,hlast⟩ := hpairs
    by_cases hitem : Clashes item.1 p
    · refine ⟨item.1,hitem,?_⟩
      rw [sketchItems_concat,assign_at,if_pos List.prefix_rfl,hatoms item (List.mem_append_right _ List.mem_cons_self)]
      rw [List.drop_eq_nil_of_le (by simp)]
      rfl
    · have hearlier : ∃ item ∈ items, Clashes item.1 p := by
        obtain ⟨other,hother,hclash⟩ := hclash
        obtain hmem | hmem := List.mem_append.mp hother
        · exact ⟨other,hmem,hclash⟩
        · obtain rfl := List.mem_singleton.mp hmem
          exact absurd hclash hitem
      obtain ⟨q,hq,hatom⟩ := ih (fun other hother => hatoms other (List.mem_append_left _ hother)) hpairs hearlier
      refine ⟨q,hq,?_⟩
      have hnot : ¬ item.1 <+: q := by
        intro hle
        apply hitem
        refine ⟨hle.trans hq.1,?_⟩
        intro heq
        exact hq.2 (List.IsPrefix.eq_of_length_le hq.1 (heq ▸ hle.length_le))
      have hnot' : ¬ q <+: item.1 := by
        intro hle
        obtain ⟨other,hother,habove⟩ := exists_of_sketchItems hbase hatom
        have hnoclash := hlast other.1 (List.mem_map_of_mem hother) item.1 (by simp)
        apply hnoclash
        refine ⟨habove.trans hle,?_⟩
        intro heq
        exact hnot (heq ▸ habove)
      rw [sketchItems_concat,assign_at,if_neg hnot,if_neg hnot']
      exact hatom

/-- The items of an iteration are set one after another, each on what the earlier ones show. -/
theorem patchItems_grown (hclosed : Closed old) {base : List (Step Text) → Option (Option (Cell A))}
    (hbase : ∀ q : List Text, base ((localVars :: q).map .key) = none)
    (items : List (List Text × Cell A)) :
    ∀ (done : List (List Text × Cell A)) {h : Heap Text A} {label : ℕ → List Text}, Grown old h label →
      old.length ≤ root → root < h.length →
      (∀ path, sketch h old.length (.ref root) path = sketchItems old base done path) →
      (∀ item ∈ items, IteratorNames item.1 ∧ item.2.Below old.length) →
      ((done ++ items).map Prod.fst).Pairwise (fun p q => ¬ Clashes p q) →
      ∃ h' label', patchItems h root items = .ok h' ∧ Grown old h' label' ∧ h.length ≤ h'.length ∧
        ∀ path, sketch h' old.length (.ref root) path = sketchItems old base (done ++ items) path := by
  induction items with
  | nil =>
    intro done h label hg hle hlt hsketch _ _
    refine ⟨h,label,rfl,hg,Nat.le_refl _,?_⟩
    rw [List.append_nil]
    exact hsketch
  | cons item items ih =>
    intro done h label hg hle hlt hsketch hitems hpairs
    obtain ⟨hnames,hbelow⟩ := hitems item List.mem_cons_self
    have hfree : Free h old.length (.ref root) (localVars :: item.1) := by
      intro q hq hne w hw
      cases q with
      | nil =>
        have hshade : some (shade old.length (.ref root : Cell A)) = some (some w) := hw
        rw [shade_own hle] at hshade
        cases hshade
      | cons first q =>
        obtain ⟨rfl,hle'⟩ := List.cons_prefix_cons.mp hq
        rw [hsketch] at hw
        obtain ⟨other,hother,habove⟩ := exists_of_sketchItems hbase hw
        rw [List.map_append,List.pairwise_append] at hpairs
        apply hpairs.2.2 other.1 (List.mem_map_of_mem hother) item.1 (by simp)
        refine ⟨habove.trans hle',?_⟩
        intro heq
        apply hne
        rw [List.IsPrefix.eq_of_length_le hle' (heq ▸ habove.length_le)]
    obtain ⟨h₁,label₁,hpatch,hg₁,hle₁,-,-,hsketch₁⟩ :=
      patchKeys_grown hclosed hbelow (List.cons_ne_nil _ _) hg hle hlt hfree
    have hassign : ∀ path, sketch h₁ old.length (.ref root) path = sketchItems old base (done ++ [item]) path := by
      intro path
      rw [hsketch₁,sketchItems_concat]
      exact congrArg (fun seen => assign none seen _ _ path) (funext hsketch)
    have hpairs' : ((done ++ [item] ++ items).map Prod.fst).Pairwise fun p q => ¬ Clashes p q := by
      rw [List.append_assoc]
      exact hpairs
    obtain ⟨h',label',hrest,hg',hle',hsketch'⟩ := ih (done ++ [item]) hg₁ hle (Nat.lt_of_lt_of_le hlt hle₁) hassign
      (fun other hother => hitems other (List.mem_cons_of_mem _ hother)) hpairs'
    refine ⟨h',label',?_,hg',hle₁.trans hle',?_⟩
    · unfold patchItems patchObject
      rw [splitOn_iteratorPath hnames,hpatch]
      exact hrest
    · rw [List.append_assoc] at hsketch'
      exact hsketch'

def revealed (old : Heap Text A) : Option (Cell A) → Option (Kind A)
  | none => some .dict
  | some v => kind old v

theorem sketch_revealed_old (hclosed : Closed old) {v : Cell A} (hv : v.Below old.length) (path : List (Step Text)) :
    (sketch old old.length v path).bind (revealed old) = observe old v path := by
  unfold sketch observe
  cases hw : follow old v path with
  | none => rfl
  | some w =>
    have hbelow := (@follow_congr _ _ old old (fun v => v.Below old.length) (fun _ _ => rfl) (below_child hclosed) _ hv path).2 w hw
    rw [Option.map_some,shade_below hbelow]
    rfl

theorem Grown.revealed_sketch (hclosed : Closed old) (hg : Grown old h label) (hle : old.length ≤ root) (hlt : root < h.length)
    (path : List (Step Text)) :
    (sketch h old.length (.ref root) path).bind (revealed old) = observe h (.ref root) path := by
  unfold sketch observe
  cases hw : follow h (.ref root) path with
  | none => rfl
  | some w =>
    have hseen : SeenUnder old h label [] w :=
      (@follow_congr _ _ h h _ (fun _ _ => rfl) (hg.seen_step hclosed) _
        (.inr ⟨root,rfl,hle,hlt,List.nil_prefix⟩) path).2 w hw
    obtain hbelow | ⟨b,rfl,hb,hblt,-⟩ := hseen
    · rw [Option.map_some,shade_below hbelow]
      exact (kind_congr fun a ha => hg.kept a (by rw [ha] at hbelow; exact hbelow)).symm
    · obtain ⟨entries,ho,-⟩ := hg.own b hb hblt
      rw [Option.map_some,shade_own hb]
      unfold kind
      dsimp only [Option.bind_some]
      rw [ho]
      rfl

theorem assign_bind {R R' : Type} {made : R} {made' : R'} {g : R → Option R'} (hg : g made = some made')
    (seen value : List (Step Text) → Option R) (names : List Text) (path : List (Step Text)) :
    (assign made seen names value path).bind g =
      assign made' (fun path => (seen path).bind g) names (fun path => (value path).bind g) path := by
  unfold assign
  split_ifs
  · rfl
  · exact hg
  · rfl

theorem revealed_sketchItems (hclosed : Closed old) {base : List (Step Text) → Option (Option (Cell A))} {base_context : ℕ}
    (hbase : ∀ path, (base path).bind (revealed old) = observe old (.ref base_context) path)
    {items : List (List Text × Cell A)} (hitems : ∀ item ∈ items, item.2.Below old.length) (path : List (Step Text)) :
    (sketchItems old base items path).bind (revealed old) = boundContext old base_context items path := by
  induction items using List.reverseRecOn generalizing path with
  | nil => exact hbase path
  | append_singleton items item ih =>
    have hmade : revealed old none = some Kind.dict := rfl
    rw [sketchItems_concat,assign_bind hmade]
    unfold boundContext
    rw [List.foldl_concat]
    have hbefore : (fun path => (sketchItems old base items path).bind (revealed old)) =
        items.foldl (fun seen item => assign .dict seen (localVars :: item.1) (observe old item.2))
          (observe old (.ref base_context)) :=
      funext fun path => ih (fun other hother => hitems other (List.mem_append_left _ hother)) path
    have hvalue : (fun path => (sketch old old.length item.2 path).bind (revealed old)) = observe old item.2 :=
      funext fun path => sketch_revealed_old hclosed (hitems item (by simp)) path
    rw [hbefore,hvalue]

variable {base_context : ℕ} {entries : Text → Option (Cell A)}

theorem copyContext_eq (ho : old[base_context]? = some (.dict entries)) :
    copyContext old base_context = (old ++ [.dict entries],old.length) := by
  unfold copyContext
  rw [ho]

section
variable (hclosed : Closed old)
include hclosed

theorem grown_copy (ho : old[base_context]? = some (.dict entries)) : Grown old (old ++ [.dict entries]) fun _ => [] := by
  have hentries : ∀ k v, entries k = some v → v.Below old.length := fun k v hv => hclosed base_context _ ho v ⟨k,hv⟩
  constructor
  · simp
  · intro a ha
    exact List.getElem?_append_left ha
  · intro a ha hlt
    obtain rfl : a = old.length := by
      rw [List.length_append,List.length_singleton] at hlt
      omega
    refine ⟨entries,getElem?_concat _ _,?_⟩
    intro k v hv
    refine ⟨(hentries k v hv).mono (by simp),?_⟩
    rintro b rfl hb
    exact absurd (hentries k _ hv) (Nat.not_lt.mpr hb)

theorem sketch_copy (ho : old[base_context]? = some (.dict entries)) {path : List (Step Text)} (hpath : path ≠ []) :
    sketch (old ++ [.dict entries]) old.length (.ref old.length) path =
      sketch old old.length (.ref base_context) path := by
  cases path with
  | nil => exact absurd rfl hpath
  | cons step path =>
    have hchild : child (old ++ [.dict entries]) (.ref old.length) step = child old (.ref base_context) step := by
      cases step with
      | key k => rw [child_dict (getElem?_concat _ _),child_dict ho]
      | index i => rw [child_dict_index (getElem?_concat _ _),child_dict_index ho]
    unfold sketch
    rw [follow,follow,hchild]
    cases hw : child old (.ref base_context) step with
    | none => rfl
    | some w =>
      obtain ⟨a,o,heq,ho',hholds⟩ := child_cases hw
      exact (grown_copy hclosed ho).sketch_old hclosed (hclosed a o ho' w hholds) path

theorem Grown.closed (hg : Grown old h label) : Closed h := by
  intro a o ho v hv
  by_cases ha : a < old.length
  · rw [hg.kept a ha] at ho
    exact (hclosed a o ho v hv).mono hg.le
  · have hlt : a < h.length := (List.getElem?_eq_some_iff.mp ho).1
    obtain ⟨entries,ho',hentries⟩ := hg.own a (Nat.le_of_not_lt ha) hlt
    obtain rfl := Option.some.inj (ho.symm.trans ho')
    obtain ⟨k,hk⟩ := hv
    exact (hentries k v hk).1

theorem patchItems_bound (ho : old[base_context]? = some (.dict entries)) (hvar : entries localVars = none)
    {items : List (List Text × Cell A)} (hitems : ∀ item ∈ items, IteratorNames item.1 ∧ item.2.Below old.length)
    (hpairs : (items.map Prod.fst).Pairwise fun p q => ¬ Clashes p q) :
    ∃ h', patchItems (old ++ [.dict entries]) old.length items = .ok h' ∧ Closed h' ∧ old.length < h'.length ∧
      (∀ a < old.length, h'[a]? = old[a]?) ∧
      ∀ path, observe h' (.ref old.length) path = boundContext old base_context items path := by
  have hroot : old.length < (old ++ [Object.dict entries]).length := by simp
  have hbase : ∀ q : List Text,
      sketch (old ++ [.dict entries]) old.length (.ref old.length) ((localVars :: q).map .key) = none := by
    intro q
    unfold sketch
    rw [List.map_cons,follow,child_dict (getElem?_concat _ _),hvar]
    rfl
  obtain ⟨h',label',hpatch,hg',hle',hsketch'⟩ := patchItems_grown hclosed hbase items [] (grown_copy hclosed ho)
    (Nat.le_refl _) hroot (fun _ => rfl) hitems hpairs
  refine ⟨h',hpatch,hg'.closed hclosed,Nat.lt_of_lt_of_le hroot hle',hg'.kept,?_⟩
  intro path
  rw [← hg'.revealed_sketch hclosed (Nat.le_refl _) (Nat.lt_of_lt_of_le hroot hle'),hsketch',List.nil_append]
  apply revealed_sketchItems hclosed _ fun item hitem => (hitems item hitem).2
  intro path
  cases path with
  | nil =>
    change (some (shade old.length (.ref old.length : Cell A))).bind (revealed old) = _
    rw [shade_own (Nat.le_refl _)]
    unfold observe follow kind
    dsimp only [Option.bind_some]
    rw [ho]
    rfl
  | cons step path =>
    rw [sketch_copy hclosed ho (List.cons_ne_nil _ _)]
    exact @sketch_revealed_old _ _ hclosed (.ref base_context) (List.getElem?_eq_some_iff.mp ho).1 _

theorem boundContext_congr (hlt : base_context < old.length) (hkept : ∀ a < old.length, h[a]? = old[a]?)
    {items : List (List Text × Cell A)} (hitems : ∀ item ∈ items, item.2.Below old.length) :
    boundContext h base_context items = boundContext old base_context items := by
  have hsame : ∀ v : Cell A, v.Below old.length → observe h v = observe old v := fun v hv =>
    funext fun path => @observe_congr _ _ old h (fun v => v.Below old.length) hkept (below_child hclosed) v hv path
  induction items using List.reverseRecOn with
  | nil => exact hsame _ hlt
  | append_singleton items item ih =>
    unfold boundContext at ih ⊢
    rw [List.foldl_concat,List.foldl_concat,ih fun other hother => hitems other (List.mem_append_left _ hother),
      hsame item.2 (hitems item (by simp))]

end

/-- All iterations: the later ones leave what the earlier ones see as it is. -/
theorem dispatchContexts_bound (hvar : entries localVars = none) (rest : List (List (List Text × Cell A))) :
    ∀ {old : Heap Text A}, Closed old → old[base_context]? = some (.dict entries) →
      (∀ items ∈ rest, (∀ item ∈ items, IteratorNames item.1 ∧ item.2.Below old.length) ∧
        (items.map Prod.fst).Pairwise fun p q => ¬ Clashes p q) →
      ∃ h' contexts, dispatchContexts old base_context rest = .ok (h',contexts) ∧
        (∀ a < old.length, h'[a]? = old[a]?) ∧
        List.Forall₂ (fun context items => ∀ path, observe h' (.ref context) path = boundContext old base_context items path)
          contexts rest := by
  induction rest with
  | nil =>
    intro old _ _ _
    exact ⟨old,[],rfl,fun _ _ => rfl,.nil⟩
  | cons items rest ih =>
    intro old hclosed ho hrest
    obtain ⟨hitems,hpairs⟩ := hrest items List.mem_cons_self
    obtain ⟨h₁,hpatch,hclosed₁,hlt₁,hkept₁,hobserve₁⟩ := patchItems_bound hclosed ho hvar hitems hpairs
    have hctx : base_context < old.length := (List.getElem?_eq_some_iff.mp ho).1
    obtain ⟨h',contexts,hdispatch,hkept',hall⟩ := ih hclosed₁ ((hkept₁ base_context hctx).trans ho) (by
      intro other hother
      obtain ⟨hitems',hpairs'⟩ := hrest other (List.mem_cons_of_mem _ hother)
      exact ⟨fun item hitem => ⟨(hitems' item hitem).1,(hitems' item hitem).2.mono hlt₁.le⟩,hpairs'⟩)
    refine ⟨h',old.length :: contexts,?_,?_,.cons ?_ ?_⟩
    · rw [dispatchContexts,copyContext_eq ho]
      dsimp only
      rw [hpatch]
      dsimp only
      rw [hdispatch]
    · intro a ha
      rw [hkept' a (ha.trans hlt₁),hkept₁ a ha]
    · intro path
      rw [← hobserve₁ path]
      exact @observe_congr _ _ h₁ h' (fun v => v.Below h₁.length) hkept' (below_child hclosed₁) (.ref old.length) hlt₁ path
    · rw [List.forall₂_iff_zip] at hall ⊢
      refine ⟨hall.1,?_⟩
      intro context other hmem path
      have hother := (hrest other (List.mem_cons_of_mem _ (List.of_mem_zip hmem).2)).1
      rw [hall.2 hmem path,boundContext_congr hclosed hctx hkept₁ fun item hitem => (hother item hitem).2]

end Iterations

section Clashes
variable {A : Type} {h h' : Heap Text A} {c : ℕ}

theorem patchKeys_blocked {x : A} (value : Cell A) {q : List Text} :
    ∀ {obj : Cell A} {ks : List Text}, follow h obj (q.map .key) = some (.atom x) → q <+: ks → q ≠ ks →
      ∃ e, patchKeys h obj value ks = .error e := by
  induction q with
  | nil =>
    intro obj ks hfollow _ hne
    cases hfollow
    cases ks with
    | nil => exact absurd rfl hne
    | cons k ks =>
      cases ks with
      | nil => exact ⟨_,rfl⟩
      | cons next keys => exact ⟨_,rfl⟩
  | cons k q ih =>
    intro obj ks hfollow habove hne
    cases ks with
    | nil => exact absurd (List.prefix_nil.mp habove) (List.cons_ne_nil _ _)
    | cons k' ks =>
      obtain ⟨rfl,hrest⟩ := List.cons_prefix_cons.mp habove
      obtain ⟨w,hchild,hfollow'⟩ := Option.bind_eq_some_iff.mp hfollow
      obtain ⟨e,he⟩ := ih hfollow' hrest fun heq => hne (heq ▸ rfl)
      cases ks with
      | nil => exact absurd (List.prefix_nil.mp hrest ▸ rfl) hne
      | cons next keys =>
        refine ⟨e,?_⟩
        rw [patchKeys,setdefault_of_child hchild]
        exact he

/-- With atoms for elements, items that can all be set do not clash. -/
theorem pairwise_of_patchItems {old : Heap Text A} {root : ℕ} (hclosed : Closed old)
    {base : List (Step Text) → Option (Option (Cell A))} (hbase : ∀ q : List Text, base ((localVars :: q).map .key) = none)
    {x : A} (items : List (List Text × Cell A)) :
    ∀ (done : List (List Text × Cell A)) {h : Heap Text A} {label : ℕ → List Text}, Grown old h label →
      old.length ≤ root → root < h.length →
      (∀ path, sketch h old.length (.ref root) path = sketchItems old base done path) →
      (∀ item ∈ done ++ items, IteratorNames item.1 ∧ item.2 = .atom x) →
      (done.map Prod.fst).Pairwise (fun p q => ¬ Clashes p q) → (∃ h', patchItems h root items = .ok h') →
      ((done ++ items).map Prod.fst).Pairwise fun p q => ¬ Clashes p q := by
  induction items with
  | nil =>
    intro done h label _ _ _ _ _ hpairs _
    rw [List.append_nil]
    exact hpairs
  | cons item items ih =>
    intro done h label hg hle hlt hsketch hitems hpairs hok
    obtain ⟨hnames,hatom⟩ := hitems item (by simp)
    obtain ⟨h',hpatches⟩ := hok
    unfold patchItems patchObject at hpatches
    rw [splitOn_iteratorPath hnames] at hpatches
    by_cases hclash : ∃ other ∈ done, Clashes other.1 item.1
    · obtain ⟨q,hq,hblock⟩ := atom_of_clash hbase (fun other hother => (hitems other (List.mem_append_left _ hother)).2) hpairs hclash
      rw [← hsketch] at hblock
      obtain ⟨w,hfollow,hshade⟩ := Option.map_eq_some_iff.mp hblock
      have hw : w = .atom x := by
        cases w with
        | atom y => exact (Option.some.inj hshade)
        | ref b =>
          unfold shade at hshade
          dsimp only at hshade
          split_ifs at hshade
          cases Option.some.inj hshade
      rw [hw] at hfollow
      obtain ⟨e,he⟩ := patchKeys_blocked item.2 hfollow (List.cons_prefix_cons.mpr ⟨rfl,hq.1⟩)
        fun heq => hq.2 (List.cons.inj heq).2
      rw [he] at hpatches
      cases hpatches
    · have hpairs' : ((done ++ [item]).map Prod.fst).Pairwise fun p q => ¬ Clashes p q := by
        rw [List.map_append,List.pairwise_append]
        refine ⟨hpairs,List.pairwise_singleton _ _,?_⟩
        intro p hp q hq
        obtain ⟨other,hother,rfl⟩ := List.mem_map.mp hp
        obtain rfl := List.mem_singleton.mp hq
        exact fun hc => hclash ⟨other,hother,hc⟩
      have hbelow : ∀ other ∈ [item], IteratorNames other.1 ∧ other.2.Below old.length := by
        intro other hother
        obtain rfl := List.mem_singleton.mp hother
        exact ⟨hnames,hatom ▸ trivial⟩
      obtain ⟨h₁,label₁,hpatch,hg₁,hle₁,hsketch₁⟩ := patchItems_grown hclosed hbase [item] done hg hle hlt hsketch hbelow hpairs'
      unfold patchItems patchObject at hpatch
      rw [splitOn_iteratorPath hnames] at hpatch
      cases hfirst : patchKeys h (.ref root) item.2 (localVars :: item.1) with
      | error e =>
        rw [hfirst] at hpatches
        cases hpatches
      | ok h₂ =>
        rw [hfirst] at hpatches hpatch
        obtain rfl : h₂ = h₁ := Except.ok.inj hpatch
        have := ih (done ++ [item]) hg₁ hle (Nat.lt_of_lt_of_le hlt hle₁) hsketch₁ (by
          rw [List.append_assoc]
          exact hitems) hpairs' ⟨h',hpatches⟩
        rw [List.append_assoc] at this
        exact this

end Clashes

section Shared
variable {A : Type} {h h' : Heap Text A} {c : ℕ} {value : Cell A}
variable {base_context : ℕ} {entries : Text → Option (Cell A)} {k : Text}

/-- No object holds the reference `c`. -/
def Unheld (h : Heap Text A) (c : ℕ) : Prop := ∀ (a : ℕ) (o : Object Text A), h[a]? = some o → ¬ o.Holds (.ref c)

/-- A heap in which the object `c` is as it was, held by nobody. -/
structure Untouched (h h' : Heap Text A) (c : ℕ) : Prop where
  same : h'[c]? = h[c]?
  unheld : Unheld h' c
  lt : c < h'.length

theorem unheld_of_closed (hclosed : Closed h) (hle : h.length ≤ c) : Unheld h c := by
  intro a o ho hholds
  exact absurd (hclosed a o ho _ hholds) (Nat.not_lt.mpr hle)

theorem unheld_append {o : Object Text A} (hc : Unheld h c) (ho : ¬ o.Holds (.ref c)) : Unheld (h ++ [o]) c := by
  intro b p hb
  by_cases hlow : b < h.length
  · rw [List.getElem?_append_left hlow] at hb
    exact hc b p hb
  · rw [List.getElem?_append_right (Nat.le_of_not_lt hlow)] at hb
    obtain rfl := List.mem_singleton.mp (List.mem_of_getElem? hb)
    exact ho

theorem unheld_set {a : ℕ} (hs : EntrySet h h' a entries k value) (hc : Unheld h c) (hvalue : value ≠ .ref c) : Unheld h' c := by
  intro b o hb hholds
  obtain heq | ⟨b',o',ho',hholds'⟩ := hs.holds hb hholds
  · exact hvalue heq.symm
  · exact hc b' o' ho' hholds'

/-- The rest of a path after one key is set elsewhere than at `c`. -/
theorem setdefault_untouched {obj obj' : Cell A} (hc : c < h.length) (hunheld : Unheld h c) (hobj : obj ≠ .ref c)
    (hclosed : Closed h) (hset : setdefault h obj k = .ok (h',obj')) :
    Untouched h h' c ∧ obj' ≠ .ref c ∧ Closed h' ∧ h.length ≤ h'.length := by
  obtain ⟨a,entries,rfl,ho⟩ := exists_of_setdefault hset
  have hne : c ≠ a := fun heq => hobj (heq ▸ rfl)
  cases hk : entries k with
  | some v =>
    rw [setdefault_of_child ((child_dict ho k).trans hk)] at hset
    cases hset
    refine ⟨⟨rfl,hunheld,hc⟩,?_,hclosed,Nat.le_refl _⟩
    intro heq
    exact hunheld a _ ho ⟨k,hk.trans (congrArg some heq)⟩
  | none =>
    obtain ⟨h₁,hdefault,hs⟩ := setdefault_of_none ho hk
    rw [hdefault] at hset
    cases hset
    have hempty : ∀ v : Cell A, ¬ (Object.dict fun _ : Text => none).Holds v := by
      rintro v ⟨k',hk'⟩
      cases hk'
    have hnew : Cell.ref h.length ≠ (.ref c : Cell A) := fun heq => hc.ne' (Cell.ref.inj heq)
    have hlength : h'.length = h.length + 1 := by
      rw [hs.length,List.length_append]
      rfl
    have hbelow : (Cell.ref h.length : Cell A).Below (h ++ [Object.dict fun _ : Text => none]).length := by
      rw [← hs.length,hlength]
      exact Nat.lt_succ_self _
    refine ⟨⟨(hs.other c hne).trans (List.getElem?_append_left hc),unheld_set hs (unheld_append hunheld (hempty _)) hnew,?_⟩,
      hnew,hs.closed (closed_append hclosed fun v hv => (hempty v hv).elim) hbelow,?_⟩
    · omega
    · omega

theorem setItem_untouched {obj : Cell A} (hc : c < h.length) (hunheld : Unheld h c) (hobj : obj ≠ .ref c)
    (hvalue : value ≠ .ref c) (hbelow : value.Below h.length) (hclosed : Closed h) (hset : setItem h obj k value = .ok h') :
    Untouched h h' c ∧ Closed h' ∧ h.length ≤ h'.length := by
  obtain ⟨a,entries,rfl,ho⟩ := exists_of_setItem hset
  have hne : c ≠ a := fun heq => hobj (heq ▸ rfl)
  obtain ⟨h₁,hok,hs⟩ := setItem_ok ho k value
  rw [hok] at hset
  cases hset
  exact ⟨⟨hs.other c hne,unheld_set hs hunheld hvalue,hs.length.symm ▸ hc⟩,hs.closed hclosed hbelow,hs.length.ge⟩

theorem patchKeys_untouched {x : A} {ks : List Text} :
    ∀ {h : Heap Text A} {obj : Cell A}, c < h.length → Unheld h c → obj ≠ .ref c → Closed h →
      patchKeys h obj (.atom x) ks = .ok h' → Untouched h h' c ∧ Closed h' ∧ h.length ≤ h'.length := by
  induction ks with
  | nil =>
    intro h obj hc hunheld _ hclosed hpatch
    cases hpatch
    exact ⟨⟨rfl,hunheld,hc⟩,hclosed,Nat.le_refl _⟩
  | cons k ks ih =>
    intro h obj hc hunheld hobj hclosed hpatch
    cases ks with
    | nil =>
      have hatom : (Cell.atom x : Cell A).Below h.length := trivial
      exact setItem_untouched hc hunheld hobj (fun heq => by cases heq) hatom hclosed hpatch
    | cons next keys =>
      rw [patchKeys] at hpatch
      split at hpatch
      · cases hpatch
      · rename_i h₁ obj₁ hdefault
        obtain ⟨hfirst,hobj₁,hclosed₁,hle₁⟩ := setdefault_untouched hc hunheld hobj hclosed hdefault
        obtain ⟨hrest,hclosed',hle'⟩ := ih hfirst.lt hfirst.unheld hobj₁ hclosed₁ hpatch
        exact ⟨⟨hrest.same.trans hfirst.same,hrest.unheld,hrest.lt⟩,hclosed',hle₁.trans hle'⟩

/-- The items of an iteration are set in the variables that the base context has, never in a copy of it. -/
theorem patchItems_untouched {x : A} {context : ℕ} {shared : Cell A}
    (hvar : entries localVars = some shared) (items : List (List Text × Cell A)) :
    ∀ {h : Heap Text A}, h[context]? = some (.dict entries) → context < h.length → Unheld h context → Closed h →
      (∀ item ∈ items, IteratorNames item.1 ∧ item.2 = .atom x) → patchItems h context items = .ok h' →
      (∀ d < h.length, Unheld h d → Untouched h h' d) ∧ Closed h' ∧ h.length ≤ h'.length := by
  induction items with
  | nil =>
    intro h _ _ _ hclosed _ hpatch
    cases hpatch
    exact ⟨fun d hd hunheld => ⟨rfl,hunheld,hd⟩,hclosed,Nat.le_refl _⟩
  | cons item items ih =>
    intro h ho hlt hunheld hclosed hitems hpatch
    obtain ⟨hnames,hatom⟩ := hitems item List.mem_cons_self
    unfold patchItems patchObject at hpatch
    rw [splitOn_iteratorPath hnames,hatom] at hpatch
    obtain ⟨name,names,heq⟩ := List.exists_cons_of_ne_nil hnames.1
    have hdown : patchKeys h (.ref context) (.atom x) (localVars :: item.1) = patchKeys h shared (.atom x) item.1 := by
      rw [heq,patchKeys,setdefault_of_child ((child_dict ho localVars).trans hvar)]
    rw [hdown] at hpatch
    cases hfirst : patchKeys h shared (.atom x) item.1 with
    | error e =>
      rw [hfirst] at hpatch
      cases hpatch
    | ok h₁ =>
      rw [hfirst] at hpatch
      have hshared : ∀ d, Unheld h d → shared ≠ .ref d := by
        intro d hd heq
        exact hd context _ ho ⟨localVars,hvar.trans (congrArg some heq)⟩
      obtain ⟨hself,hclosed₁,hle₁⟩ := patchKeys_untouched hlt hunheld (hshared context hunheld) hclosed hfirst
      obtain ⟨hrest,hclosed',hle'⟩ := ih (hself.same.trans ho) hself.lt hself.unheld hclosed₁
        (fun other hother => hitems other (List.mem_cons_of_mem _ hother)) hpatch
      refine ⟨?_,hclosed',hle₁.trans hle'⟩
      intro d hd hunheldd
      obtain ⟨hd₁,-,-⟩ := patchKeys_untouched hd hunheldd (hshared d hunheldd) hclosed hfirst
      have hd' := hrest d hd₁.lt hd₁.unheld
      exact ⟨hd'.same.trans hd₁.same,hd'.unheld,hd'.lt⟩

theorem copy_unheld (hclosed : Closed h) (ho : h[base_context]? = some (.dict entries)) :
    Closed (h ++ [.dict entries]) ∧ ∀ d, Unheld h d → Unheld (h ++ [.dict entries]) d :=
  ⟨closed_append hclosed (hclosed base_context _ ho),fun _ hd => unheld_append hd (hd base_context _ ho)⟩

/-- The two copies of a base context with variables look the same once both are patched. -/
theorem contexts_alike {x y : A} {shared : Cell A} (hclosed : Closed h)
    (ho : h[base_context]? = some (.dict entries)) (hunheld : Unheld h base_context)
    (hvar : entries localVars = some shared) {first second : List (List Text × Cell A)}
    (hfirst : ∀ item ∈ first, IteratorNames item.1 ∧ item.2 = .atom x)
    (hsecond : ∀ item ∈ second, IteratorNames item.1 ∧ item.2 = .atom y) {contexts : List ℕ}
    (hdispatch : dispatchContexts h base_context [first,second] = .ok (h',contexts)) :
    ∃ c d, contexts = [c,d] ∧ ∀ path, observe h' (.ref c) path = observe h' (.ref d) path := by
  have hlt : base_context < h.length := (List.getElem?_eq_some_iff.mp ho).1
  obtain ⟨hclosed₁,hunheld₁⟩ := copy_unheld hclosed ho
  have hfresh : Unheld (h ++ [.dict entries]) h.length := hunheld₁ _ (unheld_of_closed hclosed (Nat.le_refl _))
  rw [dispatchContexts,copyContext_eq ho] at hdispatch
  dsimp only at hdispatch
  cases hpatch : patchItems (h ++ [.dict entries]) h.length first with
  | error e =>
    rw [hpatch] at hdispatch
    cases hdispatch
  | ok h₁ =>
    rw [hpatch] at hdispatch
    obtain ⟨hkept₁,hclosed₂,hle₁⟩ := patchItems_untouched hvar first (getElem?_concat _ _) (by simp) hfresh hclosed₁ hfirst hpatch
    have hbase := hkept₁ base_context (by rw [List.length_append]; omega) (hunheld₁ _ hunheld)
    have hself := hkept₁ h.length (by simp) hfresh
    have ho₁ : h₁[base_context]? = some (.dict entries) := by
      rw [hbase.same,List.getElem?_append_left hlt]
      exact ho
    obtain ⟨hclosed₃,hunheld₃⟩ := copy_unheld hclosed₂ ho₁
    have hfresh₁ : Unheld (h₁ ++ [.dict entries]) h₁.length := hunheld₃ _ (unheld_of_closed hclosed₂ (Nat.le_refl _))
    dsimp only at hdispatch
    rw [dispatchContexts,copyContext_eq ho₁] at hdispatch
    dsimp only at hdispatch
    cases hpatch' : patchItems (h₁ ++ [.dict entries]) h₁.length second with
    | error e =>
      rw [hpatch'] at hdispatch
      cases hdispatch
    | ok h₂ =>
      rw [hpatch'] at hdispatch
      obtain ⟨rfl,rfl⟩ := Prod.mk.inj (Except.ok.inj hdispatch)
      obtain ⟨hkept₂,-,-⟩ := patchItems_untouched hvar second (getElem?_concat _ _) (by simp) hfresh₁ hclosed₃ hsecond hpatch'
      have hc : h₂[h.length]? = some (.dict entries) := by
        rw [(hkept₂ h.length (by rw [List.length_append]; exact Nat.lt_succ_of_lt hself.lt) (hunheld₃ _ hself.unheld)).same,
          List.getElem?_append_left hself.lt,hself.same]
        exact getElem?_concat _ _
      have hd : h₂[h₁.length]? = some (.dict entries) := by
        rw [(hkept₂ h₁.length (by simp) hfresh₁).same]
        exact getElem?_concat _ _
      refine ⟨_,_,rfl,?_⟩
      intro path
      cases path with
      | nil =>
        unfold observe follow kind
        dsimp only [Option.bind_some]
        rw [hc,hd]
      | cons step path =>
        have hchild : child h₂ (.ref h.length) step = child h₂ (.ref h₁.length) step := by
          cases step with
          | key k => rw [child_dict hc,child_dict hd]
          | index i => rw [child_dict_index hc,child_dict_index hd]
        unfold observe
        rw [follow,follow,hchild]

theorem boundContext_last (items : List (List Text × Cell A)) (names : List Text) (x : A) :
    boundContext h base_context (items ++ [(names,.atom x)]) ((localVars :: names).map .key) = some (.atom x) := by
  unfold boundContext
  rw [List.foldl_concat]
  unfold assign
  rw [if_pos List.prefix_rfl,List.drop_eq_nil_of_le (by simp)]
  rfl

end Shared

section Loops
variable {A : Type}

theorem mem_zipIterators (iterators : List (List Text × List (Cell A))) :
    ∀ {items : List (List Text × Cell A)}, items ∈ zipIterators iterators →
      items.map Prod.fst = iterators.map Prod.fst ∧ ∀ item ∈ items, ∃ iterator ∈ iterators, item.2 ∈ iterator.2 := by
  induction iterators with
  | nil =>
    intro items hitems
    cases hitems
  | cons iterator rest ih =>
    obtain ⟨names,collection⟩ := iterator
    intro items hitems
    cases rest with
    | nil =>
      obtain ⟨value,hvalue,rfl⟩ := List.mem_map.mp hitems
      refine ⟨rfl,?_⟩
      intro item hitem
      obtain rfl := List.mem_singleton.mp hitem
      exact ⟨_,List.mem_cons_self,hvalue⟩
    | cons next rest =>
      rw [zipIterators,← List.map_uncurry_zip_eq_zipWith] at hitems
      obtain ⟨⟨value,items'⟩,hpair,rfl⟩ := List.mem_map.mp hitems
      obtain ⟨hvalue,hitems'⟩ := List.of_mem_zip hpair
      obtain ⟨hnames,helements⟩ := ih hitems'
      refine ⟨congrArg (names :: ·) hnames,?_⟩
      intro item hitem
      obtain rfl | hrest := List.mem_cons.mp hitem
      · exact ⟨_,List.mem_cons_self,hvalue⟩
      · obtain ⟨other,hother,helement⟩ := helements item hrest
        exact ⟨other,List.mem_cons_of_mem _ hother,helement⟩

theorem zipIterators_map {paths : List (List Text)} (h : paths ≠ []) (collection : List (Cell A)) :
    zipIterators (paths.map fun names => (names,collection)) =
      collection.map fun value => paths.map fun names => (names,value) := by
  induction paths with
  | nil => exact absurd rfl h
  | cons names paths ih =>
    cases paths with
    | nil => rfl
    | cons next paths =>
      have hrest := ih (List.cons_ne_nil _ _)
      rw [List.map_cons] at hrest
      rw [List.map_cons,List.map_cons,zipIterators,hrest,List.zipWith_map_right,List.zipWith_self]
      rfl

/-- Every task sees the base context with the variables of its own iteration, once all contexts are patched. -/
def Isolates (h : Heap Text A) (base_context : ℕ) (iterators : List (List Text × List (Cell A))) : Prop :=
  ∃ h' contexts, dispatchContexts h base_context (zipIterators iterators) = .ok (h',contexts) ∧
    List.Forall₂ (fun context items => ∀ path, observe h' (.ref context) path = boundContext h base_context items path)
      contexts (zipIterators iterators)

variable {h : Heap Text A} {base_context : ℕ} {entries : Text → Option (Cell A)} {paths : List (List Text)}

theorem isolates_of_apart (hclosed : Closed h) (ho : h[base_context]? = some (.dict entries)) (hvar : entries localVars = none)
    (hpaths : ∀ names ∈ paths, IteratorNames names) (hpairs : paths.Pairwise fun p q => ¬ Clashes p q)
    {collections : List (List (Cell A))} (hlength : collections.length = paths.length)
    (hbelow : ∀ collection ∈ collections, ∀ v ∈ collection, v.Below h.length) :
    Isolates h base_context (paths.zip collections) := by
  have hnames : (paths.zip collections).map Prod.fst = paths := List.map_fst_zip hlength.ge
  obtain ⟨h',contexts,hdispatch,-,hall⟩ := dispatchContexts_bound hvar (zipIterators (paths.zip collections)) hclosed ho (by
    intro items hitems
    obtain ⟨hfst,helements⟩ := mem_zipIterators _ hitems
    rw [hfst,hnames]
    refine ⟨?_,hpairs⟩
    intro item hitem
    constructor
    · apply hpaths
      rw [← hnames,← hfst]
      exact List.mem_map_of_mem hitem
    · obtain ⟨iterator,hiterator,helement⟩ := helements item hitem
      exact hbelow iterator.2 (List.of_mem_zip hiterator).2 item.2 helement)
  exact ⟨h',contexts,hdispatch,hall⟩

theorem isolates_atoms {atoms : List A} (hall : ∀ collections : List (List (Cell A)), collections.length = paths.length →
      (∀ collection ∈ collections, ∀ v ∈ collection, v.Below h.length) → Isolates h base_context (paths.zip collections)) :
    Isolates h base_context (paths.map fun names => (names,atoms.map Cell.atom)) := by
  have := hall (paths.map fun _ => atoms.map Cell.atom) (List.length_map _) (by
    intro collection hcollection v hv
    obtain ⟨-,-,rfl⟩ := List.mem_map.mp hcollection
    obtain ⟨x,-,rfl⟩ := List.mem_map.mp hv
    exact trivial)
  have hzip : (paths.map id).zip (paths.map fun _ => atoms.map Cell.atom) =
      paths.map fun names => (names,atoms.map Cell.atom) := List.zip_map'
  rw [List.map_id] at hzip
  rw [hzip] at this
  exact this

theorem mem_atoms {x : A} (hpaths : ∀ names ∈ paths, IteratorNames names) :
    ∀ item ∈ paths.map fun names => (names,Cell.atom x), IteratorNames item.1 ∧ item.2 = .atom x := by
  intro item hitem
  obtain ⟨names,hnames,rfl⟩ := List.mem_map.mp hitem
  exact ⟨hpaths names hnames,rfl⟩

/-- The iterations of a loop are isolated, whatever they range over, if and only if the base context has no loop variables
yet and no variable of the loop is to be set inside the element of an earlier one. -/
theorem isolates_iff [Nontrivial A] (hclosed : Closed h) (ho : h[base_context]? = some (.dict entries))
    (hunheld : Unheld h base_context) (hpaths : ∀ names ∈ paths, IteratorNames names) :
    (∀ collections : List (List (Cell A)), collections.length = paths.length →
      (∀ collection ∈ collections, ∀ v ∈ collection, v.Below h.length) → Isolates h base_context (paths.zip collections)) ↔
    paths = [] ∨ (entries localVars = none ∧ paths.Pairwise fun p q => ¬ Clashes p q) := by
  constructor
  · intro hall
    by_cases hempty : paths = []
    · exact .inl hempty
    right
    obtain ⟨x,y,hxy⟩ := exists_pair_ne A
    have hvar : entries localVars = none := by
      by_contra hsome
      obtain ⟨shared,hvar⟩ := Option.ne_none_iff_exists'.mp hsome
      obtain ⟨h',contexts,hdispatch,hseen⟩ := @isolates_atoms A h base_context paths [x,y] hall
      rw [zipIterators_map hempty] at hdispatch hseen
      obtain ⟨c,d,rfl,halike⟩ := contexts_alike hclosed ho hunheld hvar (mem_atoms hpaths) (mem_atoms hpaths) hdispatch
      obtain ⟨hfirst,hrest⟩ := List.forall₂_cons.mp hseen
      obtain ⟨hsecond,-⟩ := List.forall₂_cons.mp hrest
      -- both contexts show the last variable of the loop, each should show its own element
      obtain ⟨init,last,rfl⟩ : ∃ init last, paths = init ++ [last] := ⟨_,_,(List.dropLast_append_getLast hempty).symm⟩
      have heq := ((hfirst _).symm.trans (halike _)).trans (hsecond ((localVars :: last).map .key))
      dsimp only at heq
      rw [List.map_append,List.map_append,List.map_singleton,List.map_singleton,boundContext_last,boundContext_last] at heq
      exact hxy (Kind.atom.inj (Option.some.inj heq))
    refine ⟨hvar,?_⟩
    obtain ⟨h',contexts,hdispatch,-⟩ := @isolates_atoms A h base_context paths [x] hall
    rw [zipIterators_map hempty,List.map_singleton,List.map_singleton,dispatchContexts,copyContext_eq ho] at hdispatch
    have hok : ∃ h', patchItems (h ++ [.dict entries]) h.length (paths.map fun names => (names,Cell.atom x)) = .ok h' := by
      dsimp only at hdispatch
      split at hdispatch
      · cases hdispatch
      · rename_i h₁ hpatch
        exact ⟨h₁,hpatch⟩
    have hbase : ∀ q : List Text,
        sketch (h ++ [.dict entries]) h.length (.ref h.length) ((localVars :: q).map .key) = none := by
      intro q
      unfold sketch
      rw [List.map_cons,follow,child_dict (getElem?_concat _ _),hvar]
      rfl
    have hpairs := pairwise_of_patchItems hclosed hbase (paths.map fun names => (names,Cell.atom x)) []
      (grown_copy hclosed ho) (Nat.le_refl _) (by simp) (fun _ => rfl) (mem_atoms hpaths) List.Pairwise.nil hok
    rw [List.nil_append,List.map_map] at hpairs
    have hid : paths.map (Prod.fst ∘ fun names => (names,(Cell.atom x : Cell A))) = paths := List.map_id _
    rwa [hid] at hpairs
  · intro hapart collections hlength hbelow
    obtain rfl | ⟨hvar,hpairs⟩ := hapart
    · exact ⟨h,[],rfl,.nil⟩
    · exact isolates_of_apart hclosed ho hvar hpaths hpairs hlength hbelow

end Loops

/-- A base context whose `var` is a dict, as inside a loop that is nested in another. -/
def nestedHeap : Heap Text ℕ := [.dict fun k => if k = localVars then some (.ref 1) else none,.dict fun _ => none]

/-- Both iterations of `for var.x in [1, 2]` see 2. -/
theorem nestedHeap_shared : ¬ Isolates nestedHeap 0 [([['x']],[.atom 1,.atom 2])] := by
  rintro ⟨h',contexts,hdispatch,hseen⟩
  obtain ⟨rfl,rfl⟩ := Prod.mk.inj (Except.ok.inj hdispatch)
  obtain ⟨hfirst,-⟩ := List.forall₂_cons.mp hseen
  have hlast := hfirst [.key localVars,.key ['x']]
  cases hlast

/-- A base context without loop variables. -/
def plainHeap : Heap Text ℕ := [.dict fun _ => none]

theorem isolates_iff_plain : Isolates plainHeap 0 [([['x']],[.atom 1,.atom 2])] := by
  have hcell : ∀ (a : ℕ) (o : Object Text ℕ), plainHeap[a]? = some o → ∀ v, ¬ o.Holds v := by
    intro a o ho v hv
    obtain rfl := List.mem_singleton.mp (List.mem_of_getElem? ho)
    obtain ⟨k,hk⟩ := hv
    cases hk
  have hiff := @isolates_iff ℕ plainHeap 0 (fun _ => none) [[['x']]] _ (fun a o ho v hv => absurd hv (hcell a o ho v)) rfl
    (fun a o ho => hcell a o ho _) (by
      intro names hnames
      obtain rfl := List.mem_singleton.mp hnames
      exact ⟨List.cons_ne_nil _ _,by decide⟩)
  exact hiff.mpr (.inr ⟨rfl,List.pairwise_singleton _ _⟩) [[.atom 1,.atom 2]] rfl (by
    intro collection hcollection v hv
    obtain rfl := List.mem_singleton.mp hcollection
    obtain rfl | hv := List.mem_cons.mp hv
    · exact trivial
    · obtain rfl := List.mem_singleton.mp hv
      exact trivial)

end LoopContexts
end Allama
