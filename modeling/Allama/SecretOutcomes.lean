import Allama.Masks

/-! Which outcomes of an invocation hide the secrets. -/
namespace Allama
namespace Masks
open Alternations
variable {V : Type}

def Hides (secrets : List Text) (s t : Text) : Prop := Redacted maskValue (Covered secrets s) s t

def Free (secrets : List Text) (s : Text) : Prop := ∀ i, ¬ Covered secrets s i

section Objects
variable (secrets : List Text)

mutual

/-- An object with every text of it hidden, keys of mappings among them. -/
def HidesObject : PyObject V → PyObject V → Prop
  | .str s, .str t => Hides secrets s t
  | .list xs, .list ys => HidesItems xs ys
  | .dict xs, .dict ys => HidesEntries xs ys
  | .other v, .other w => v = w
  | _, _ => False

def HidesItems : List (PyObject V) → List (PyObject V) → Prop
  | [], [] => True
  | x :: xs, y :: ys => HidesObject x y ∧ HidesItems xs ys
  | _, _ => False

def HidesEntries : List (PyObject V × PyObject V) → List (PyObject V × PyObject V) → Prop
  | [], [] => True
  | (k,x) :: xs, (l,y) :: ys => HidesObject k l ∧ HidesObject x y ∧ HidesEntries xs ys
  | _, _ => False

end

mutual

def FreeObject : PyObject V → Prop
  | .str s => Free secrets s
  | .list xs => FreeItems xs
  | .dict xs => FreeEntries xs
  | .other _ => True

def FreeItems : List (PyObject V) → Prop
  | [] => True
  | x :: xs => FreeObject x ∧ FreeItems xs

def FreeEntries : List (PyObject V × PyObject V) → Prop
  | [] => True
  | (k,x) :: xs => FreeObject k ∧ FreeObject x ∧ FreeEntries xs

end

mutual

def Maskable : PyObject V → Prop
  | .str s => Separate secrets s
  | .list xs => MaskableItems xs
  | .dict xs => MaskableEntries xs
  | .other _ => True

def MaskableItems : List (PyObject V) → Prop
  | [] => True
  | x :: xs => Maskable x ∧ MaskableItems xs

def MaskableEntries : List (PyObject V × PyObject V) → Prop
  | [] => True
  | (k,x) :: xs => FreeObject secrets k ∧ Maskable x ∧ MaskableEntries xs

end
end Objects

section Unchanged
variable {secrets : List Text}

mutual

theorem hidesObject_refl (x : PyObject V) (h : FreeObject secrets x) : HidesObject secrets x x := by
  cases x with
  | str s =>
    rw [FreeObject] at h
    rw [HidesObject]
    exact redacted_refl h s
  | list xs =>
    rw [FreeObject] at h
    rw [HidesObject]
    exact hidesItems_refl xs h
  | dict xs =>
    rw [FreeObject] at h
    rw [HidesObject]
    exact hidesEntries_refl xs h
  | other v => rw [HidesObject]

theorem hidesItems_refl (xs : List (PyObject V)) (h : FreeItems secrets xs) : HidesItems secrets xs xs := by
  cases xs with
  | nil => rw [HidesItems]; trivial
  | cons x xs =>
    rw [FreeItems] at h
    rw [HidesItems]
    exact ⟨hidesObject_refl x h.1,hidesItems_refl xs h.2⟩

theorem hidesEntries_refl (xs : List (PyObject V × PyObject V)) (h : FreeEntries secrets xs) : HidesEntries secrets xs xs := by
  cases xs with
  | nil => rw [HidesEntries]; trivial
  | cons entry xs =>
    obtain ⟨k,x⟩ := entry
    rw [FreeEntries] at h
    rw [HidesEntries]
    exact ⟨hidesObject_refl k h.1,hidesObject_refl x h.2.1,hidesEntries_refl xs h.2.2⟩

end
end Unchanged

section Masked
variable {secrets order order' : List Text}

theorem replace_no_words (mask s : Text) : Alternations.replace [] mask 0 s = s := by
  induction s with
  | nil => rfl
  | cons c s ih =>
    rw [replace_of_none rfl, ih]

section
variable (hlong : ∀ mask ∈ secrets, 1 < mask.length)
include hlong

theorem ne_nil_of_long : ∀ mask ∈ secrets, mask ≠ [] := by
  intro mask hmask
  have hlength := hlong mask hmask
  exact List.ne_nil_of_length_pos (by omega)

theorem applyMasks_eq (horder : ∀ mask, mask ∈ order ↔ mask ∈ secrets) {s : Text} (h : Separate secrets s) :
    applyMasks s order = Alternations.replace secrets maskValue 0 s := by
  have hfilter : (order.filter fun mask => decide (1 < mask.length)) = order := by
    apply List.filter_eq_self.mpr
    intro mask hmask
    exact decide_eq_true (hlong mask ((horder mask).mp hmask))
  have hne := ne_nil_of_long hlong
  unfold applyMasks
  by_cases hempty : order = []
  · have hnone : secrets = [] := by
      apply List.eq_nil_iff_forall_not_mem.mpr
      intro mask hmask
      have hmem := (horder mask).mpr hmask
      rw [hempty] at hmem
      cases hmem
    rw [if_pos hempty, hnone, replace_no_words]
  · dsimp only
    rw [if_neg hempty, hfilter, if_neg hempty]
    exact (replace_separate_text hne horder h).2

theorem hides_applyMasks (horder : ∀ mask, mask ∈ order ↔ mask ∈ secrets) {s : Text} (h : Separate secrets s) :
    Hides secrets s (applyMasks s order) := by
  have hne := ne_nil_of_long hlong
  rw [applyMasks_eq hlong horder h]
  exact (replace_separate_text hne (fun _ => Iff.rfl) h).1

end

mutual

theorem hides_applyMasksObject (htext : ∀ s, Separate secrets s → Hides secrets s (applyMasks s order))
    (x : PyObject V) (h : Maskable secrets x) : HidesObject secrets x (applyMasksObject order x) := by
  cases x with
  | str s =>
    rw [Maskable] at h
    rw [applyMasksObject, HidesObject]
    exact htext s h
  | list xs =>
    rw [Maskable] at h
    rw [applyMasksObject, HidesObject]
    exact hides_applyMasksItems htext xs h
  | dict xs =>
    rw [Maskable] at h
    rw [applyMasksObject, HidesObject]
    exact hides_applyMasksEntries htext xs h
  | other v => rw [applyMasksObject, HidesObject]

theorem hides_applyMasksItems (htext : ∀ s, Separate secrets s → Hides secrets s (applyMasks s order))
    (xs : List (PyObject V)) (h : MaskableItems secrets xs) :
    HidesItems secrets xs (applyMasksItems order xs) := by
  cases xs with
  | nil => rw [applyMasksItems, HidesItems]; trivial
  | cons x xs =>
    rw [MaskableItems] at h
    rw [applyMasksItems, HidesItems]
    exact ⟨hides_applyMasksObject htext x h.1,hides_applyMasksItems htext xs h.2⟩

theorem hides_applyMasksEntries (htext : ∀ s, Separate secrets s → Hides secrets s (applyMasks s order))
    (xs : List (PyObject V × PyObject V)) (h : MaskableEntries secrets xs) :
    HidesEntries secrets xs (applyMasksEntries order xs) := by
  cases xs with
  | nil => rw [applyMasksEntries, HidesEntries]; trivial
  | cons entry xs =>
    obtain ⟨k,x⟩ := entry
    rw [MaskableEntries] at h
    rw [applyMasksEntries, HidesEntries]
    exact ⟨hidesObject_refl k h.1,hides_applyMasksObject htext x h.2.1,hides_applyMasksEntries htext xs h.2.2⟩

end

mutual

theorem applyMasksObject_order (htext : ∀ s, Separate secrets s → applyMasks s order' = applyMasks s order)
    (x : PyObject V) (h : Maskable secrets x) :
    applyMasksObject order' x = applyMasksObject order x := by
  cases x with
  | str s =>
    rw [Maskable] at h
    rw [applyMasksObject, applyMasksObject, htext s h]
  | list xs =>
    rw [Maskable] at h
    rw [applyMasksObject, applyMasksObject, applyMasksItems_order htext xs h]
  | dict xs =>
    rw [Maskable] at h
    rw [applyMasksObject, applyMasksObject, applyMasksEntries_order htext xs h]
  | other v => rw [applyMasksObject, applyMasksObject]

theorem applyMasksItems_order (htext : ∀ s, Separate secrets s → applyMasks s order' = applyMasks s order)
    (xs : List (PyObject V)) (h : MaskableItems secrets xs) :
    applyMasksItems order' xs = applyMasksItems order xs := by
  cases xs with
  | nil => rw [applyMasksItems, applyMasksItems]
  | cons x xs =>
    rw [MaskableItems] at h
    rw [applyMasksItems, applyMasksItems, applyMasksObject_order htext x h.1, applyMasksItems_order htext xs h.2]

theorem applyMasksEntries_order (htext : ∀ s, Separate secrets s → applyMasks s order' = applyMasks s order)
    (xs : List (PyObject V × PyObject V)) (h : MaskableEntries secrets xs) :
    applyMasksEntries order' xs = applyMasksEntries order xs := by
  cases xs with
  | nil => rw [applyMasksEntries, applyMasksEntries]
  | cons entry xs =>
    obtain ⟨k,x⟩ := entry
    rw [MaskableEntries] at h
    rw [applyMasksEntries, applyMasksEntries, applyMasksObject_order htext x h.2.1,
      applyMasksEntries_order htext xs h.2.2]

end

mutual

theorem applyMasksObject_nil (x : PyObject V) : applyMasksObject [] x = x := by
  cases x with
  | str s =>
    rw [applyMasksObject]
    rfl
  | list xs => rw [applyMasksObject, applyMasksItems_nil xs]
  | dict xs => rw [applyMasksObject, applyMasksEntries_nil xs]
  | other v => rw [applyMasksObject]

theorem applyMasksItems_nil (xs : List (PyObject V)) : applyMasksItems [] xs = xs := by
  cases xs with
  | nil => rw [applyMasksItems]
  | cons x xs => rw [applyMasksItems, applyMasksObject_nil x, applyMasksItems_nil xs]

theorem applyMasksEntries_nil (xs : List (PyObject V × PyObject V)) : applyMasksEntries [] xs = xs := by
  cases xs with
  | nil => rw [applyMasksEntries]
  | cons entry xs =>
    obtain ⟨k,x⟩ := entry
    rw [applyMasksEntries, applyMasksObject_nil x, applyMasksEntries_nil xs]

end
end Masked

section Outcomes
variable (secrets : List Text)

def HidesVars : Option (PyObject V) → Option (PyObject V) → Prop
  | none, none => True
  | some x, some y => HidesObject secrets x y
  | _, _ => False

def HidesRaised : Raised V → Raised V → Prop
  | .execution info, .execution info' => Hides secrets info.action_name info'.action_name ∧
    Hides secrets info.type info'.type ∧ Hides secrets info.message info'.message ∧
    Hides secrets info.filename info'.filename ∧ Hides secrets info.function info'.function ∧ info.lineno = info'.lineno ∧
    info.loop_iteration = info'.loop_iteration ∧ HidesVars secrets info.loop_vars info'.loop_vars
  | .other type message filename function lineno, .other type' message' filename' function' lineno' =>
    Hides secrets type type' ∧ Hides secrets message message' ∧ Hides secrets filename filename' ∧
    Hides secrets function function' ∧ lineno = lineno'
  | _, _ => False

/-- What is handed back hides the secrets of an outcome. -/
def HidesOutcome : Except (Raised V) (PyObject V) → Except (Raised V) (PyObject V) → Prop
  | .ok x, .ok y => HidesObject secrets x y
  | .error e, .error e' => HidesRaised secrets e e'
  | _, _ => False

def FreeRaised : Raised V → Prop
  | .execution info => Free secrets info.action_name ∧ Free secrets info.type ∧ Free secrets info.message ∧
    Free secrets info.filename ∧ Free secrets info.function ∧ ∀ vars ∈ info.loop_vars, FreeObject secrets vars
  | .other type message filename function _ =>
    Free secrets type ∧ Free secrets message ∧ Free secrets filename ∧ Free secrets function

/-- An outcome that comes without secrets where it is not masked: in an error, in the keys of mappings, and anywhere if masking
is disabled. Elsewhere they are separate. -/
def Harmless (unsafeDisableSmMasking : Bool) : Except (Raised V) (PyObject V) → Prop
  | .ok x => if unsafeDisableSmMasking then FreeObject secrets x else Maskable secrets x
  | .error e => FreeRaised secrets e

variable {secrets}

theorem hidesRaised_refl {e : Raised V} (h : FreeRaised secrets e) : HidesRaised secrets e e := by
  have htext : ∀ {s : Text}, Free secrets s → Hides secrets s s := fun hs => redacted_refl hs _
  cases e with
  | execution info =>
    obtain ⟨hname,htype,hmessage,hfilename,hfunction,hvars⟩ := h
    have hloop : HidesVars secrets info.loop_vars info.loop_vars := by
      cases hv : info.loop_vars with
      | none => exact trivial
      | some vars => exact hidesObject_refl vars (hvars vars hv)
    exact ⟨htext hname,htext htype,htext hmessage,htext hfilename,htext hfunction,rfl,rfl,hloop⟩
  | other type message filename function lineno =>
    obtain ⟨htype,hmessage,hfilename,hfunction⟩ := h
    exact ⟨htext htype,htext hmessage,htext hfilename,htext hfunction,rfl⟩

theorem invokeOnce_some (masks : List Text) (inv : Invocation V) :
    invokeOnce (some masks) inv = (invokeOnce none inv).map (applyMasksObject masks) := by
  unfold invokeOnce
  split
  · rfl
  · split
    · rfl
    · split
      · rfl
      · split
        · rfl
        · rename_i result _
          dsimp only
          split
          · rename_i hempty
            rw [hempty]
            exact congrArg Except.ok (applyMasksObject_nil result).symm
          · rfl

theorem maskValues_long (render : V → Option Text) (resolved : PyObject V) : ∀ mask ∈ maskValues render resolved, 1 < mask.length := by
  intro mask hmask
  exact of_decide_eq_true (List.mem_filter.mp hmask).2

/-- For every set of resolved secrets and every order of their masks, an outcome is handed back with all secrets masked, and as
with any other order, if it is harmless. -/
theorem secrets_hidden (render : V → Option Text) (resolved : PyObject V) (unsafeDisableSmMasking : Bool) {order : List Text}
    (horder : ∀ mask, mask ∈ order ↔ mask ∈ maskValues render resolved) (inv : Invocation V)
    (h : Harmless (maskValues render resolved) unsafeDisableSmMasking (invokeOnce none inv)) :
    HidesOutcome (maskValues render resolved) (invokeOnce none inv)
      (invokeOnce (preparedMasks unsafeDisableSmMasking order) inv) ∧
    ∀ order', (∀ mask, mask ∈ order' ↔ mask ∈ maskValues render resolved) →
      invokeOnce (preparedMasks unsafeDisableSmMasking order') inv = invokeOnce (preparedMasks unsafeDisableSmMasking order) inv := by
  have hlong := maskValues_long render resolved
  have hmasked : ∀ order, preparedMasks false order = some order := fun _ => rfl
  cases unsafeDisableSmMasking with
  | true =>
    refine ⟨?_,fun _ _ => rfl⟩
    -- without masking the outcome is the raw one, which is harmless only if it has no secret
    change HidesOutcome _ _ (invokeOnce none inv)
    cases hraw : invokeOnce none inv with
    | error e =>
      rw [hraw] at h
      exact hidesRaised_refl h
    | ok x =>
      rw [hraw] at h
      exact hidesObject_refl x h
  | false =>
    rw [hmasked, invokeOnce_some]
    cases hraw : invokeOnce none inv with
    | error e =>
      rw [hraw] at h
      refine ⟨hidesRaised_refl h,?_⟩
      intro order' _
      rw [hmasked, invokeOnce_some, hraw]
      rfl
    | ok x =>
      rw [hraw] at h
      -- every text of the result is separate, so that masking hides it whatever the order
      have htext : ∀ s, Separate (maskValues render resolved) s → Hides (maskValues render resolved) s (applyMasks s order) :=
        fun _ hs => hides_applyMasks hlong horder hs
      refine ⟨hides_applyMasksObject htext x h,?_⟩
      intro order' horder'
      have hsame : ∀ s, Separate (maskValues render resolved) s → applyMasks s order' = applyMasks s order := by
        intro s hs
        rw [applyMasks_eq hlong horder' hs, applyMasks_eq hlong horder hs]
      rw [hmasked, invokeOnce_some, hraw]
      exact congrArg Except.ok (applyMasksObject_order hsame x h)

end Outcomes

section Samples

/-- A password, and another one that starts with it. -/
def storedSecrets : PyObject Unit :=
  .dict [(.str "vault".toList,.dict [(.str "A".toList,.str "hunter".toList),(.str "B".toList,.str "hunter2".toList)])]

def noRender (_ : Unit) : Option Text := none

def invocation (step : Except (Raised Unit) (PyObject Unit)) : Invocation Unit where
  action_name := "core.http_request".toList
  organization_id := some "org".toList
  prefetch := .ok ()
  prepare := .ok ()
  step := step
  iteration := none
  local_vars := none

def shortFirst : List Text := ["hunter".toList,"hunter2".toList]

def longFirst : List Text := ["hunter2".toList,"hunter".toList]

/-- One of the passwords, between other words. -/
def body : PyObject Unit := .dict [(.str "body".toList,.str "key hunter!".toList)]

theorem secrets_hidden_body : HidesOutcome (maskValues noRender storedSecrets) (.ok body)
      (invokeOnce (preparedMasks false longFirst) (invocation (.ok body))) ∧
    invokeOnce (preparedMasks false longFirst) (invocation (.ok body)) =
      .ok (.dict [(.str "body".toList,.str "key ***!".toList)]) := by
  have horder : ∀ mask, mask ∈ longFirst ↔ mask ∈ maskValues noRender storedSecrets := by
    intro mask
    change mask ∈ longFirst ↔ mask ∈ shortFirst
    simp only [longFirst, shortFirst, List.mem_cons, List.not_mem_nil, or_false]
    exact Or.comm
  have hseparate : Separate shortFirst "key hunter!".toList := by
    apply separate_of_one (i := 4) (v := "hunter".toList)
    · decide
    · decide
  have hfree : Free shortFirst "body".toList := by
    apply not_covered_of_none
    · decide
    · decide
  have hharmless : Harmless (maskValues noRender storedSecrets) false (invokeOnce none (invocation (.ok body))) := by
    change MaskableEntries shortFirst [(.str "body".toList,.str "key hunter!".toList)]
    rw [MaskableEntries, FreeObject, Maskable, MaskableEntries]
    exact ⟨hfree,hseparate,trivial⟩
  exact ⟨(secrets_hidden noRender storedSecrets false horder _ hharmless).1,rfl⟩

/-- A key and an error message with one of the passwords. -/
def keyed : Except (Raised Unit) (PyObject Unit) := .ok (.dict [(.str "hunter".toList,.str "".toList)])

def refused : Raised Unit := .other "ValueError".toList "hunter".toList "pool.py".toList "execute".toList none

/-- The order of the masks decides what is left of the longer password, and keys and errors keep theirs. -/
theorem secrets_left : invokeOnce (preparedMasks false shortFirst) (invocation (.ok (.str "hunter2".toList))) =
      .ok (.str "***2".toList) ∧
    invokeOnce (preparedMasks false longFirst) (invocation (.ok (.str "hunter2".toList))) = .ok (.str "***".toList) ∧
    ¬ HidesOutcome shortFirst keyed (invokeOnce (preparedMasks false shortFirst) (invocation keyed)) ∧
    ¬ HidesOutcome shortFirst (invokeOnce none (invocation (.error refused)))
      (invokeOnce (preparedMasks false shortFirst) (invocation (.error refused))) := by
  have hcovered : Covered shortFirst "hunter".toList 0 :=
    ⟨0,"hunter".toList,List.mem_cons_self,List.prefix_refl _,Nat.le_refl 0,by decide⟩
  have hshown : ¬ Hides shortFirst "hunter".toList "hunter".toList := not_redacted_cons (by decide) hcovered
  refine ⟨rfl,rfl,?_,?_⟩
  · intro h
    change HidesEntries shortFirst [(.str "hunter".toList,_)] [(.str "hunter".toList,_)] at h
    rw [HidesEntries, HidesObject] at h
    exact hshown h.1
  · intro h
    exact hshown h.2.2.1

end Samples
end Masks
end Allama
