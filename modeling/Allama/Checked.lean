import Mathlib.Data.List.Forall2

/-! When sequences of checks succeed: computations that return or raise. -/
namespace Checked

theorem bind_eq_ok {α β ε : Type} {x : Except ε α} {f : α → Except ε β} {b : β} :
    x >>= f = .ok b ↔ ∃ a, x = .ok a ∧ f a = .ok b := by
  cases x <;> simp [bind, Except.bind]

theorem map_eq_ok {α β ε : Type} {x : Except ε α} {f : α → β} {b : β} :
    x.map f = .ok b ↔ ∃ a, x = .ok a ∧ f a = b := by
  cases x with
  | error e => exact ⟨fun h => (by cases h),fun ⟨_,h,_⟩ => (by cases h)⟩
  | ok a => simp [Except.map]

theorem forM_eq_ok {α ε : Type} {f : α → Except ε Unit} {xs : List α} :
    xs.forM f = .ok () ↔ ∀ x ∈ xs, f x = .ok () := by
  induction xs with
  | nil => simp [List.forM, pure, Except.pure]
  | cons x xs ih =>
    rw [List.forall_mem_cons, ← ih]
    change f x >>= (fun _ => xs.forM f) = .ok () ↔ _
    rw [bind_eq_ok]
    exact ⟨fun ⟨_,hx,hxs⟩ => ⟨hx,hxs⟩,fun ⟨hx,hxs⟩ => ⟨(),hx,hxs⟩⟩

theorem mapM_eq_ok {α β ε : Type} {f : α → Except ε β} {xs : List α} {ys : List β} :
    xs.mapM f = .ok ys ↔ List.Forall₂ (fun x y => f x = .ok y) xs ys := by
  induction xs generalizing ys with
  | nil => simp [pure, Except.pure, eq_comm]
  | cons x xs ih =>
    rw [List.mapM_cons, bind_eq_ok, List.forall₂_cons_left_iff]
    simp only [bind_eq_ok, ih]
    constructor
    · rintro ⟨y,hy,ys',hys,h⟩
      injection h with h
      exact ⟨y,ys',hy,hys,h.symm⟩
    · rintro ⟨y,ys',hy,hys,rfl⟩
      exact ⟨y,hy,ys',hys,rfl⟩

theorem exists_mapM_eq_ok {α β ε : Type} {f : α → Except ε β} {R : α → β → Prop} {xs : List α}
    (h : ∀ x ∈ xs, ∃ y, f x = .ok y ∧ R x y) : ∃ ys, xs.mapM f = .ok ys ∧ List.Forall₂ R xs ys := by
  induction xs with
  | nil => exact ⟨[],rfl,.nil⟩
  | cons x xs ih =>
    obtain ⟨y,hy,hR⟩ := h x (by simp)
    obtain ⟨ys,hys,hRs⟩ := ih fun z hz => h z (by simp [hz])
    refine ⟨y :: ys,?_,.cons hR hRs⟩
    exact mapM_eq_ok.mpr (.cons hy (mapM_eq_ok.mp hys))

theorem exists_of_forall₂ {α β : Type} {R : α → β → Prop} {xs : List α} {ys : List β}
    (h : List.Forall₂ R xs ys) {x : α} (hx : x ∈ xs) : ∃ y ∈ ys, R x y := by
  induction h with
  | nil => cases hx
  | cons hR _ ih =>
    rcases List.mem_cons.mp hx with rfl | hx
    · exact ⟨_,by simp,hR⟩
    · obtain ⟨y,hy,hR⟩ := ih hx
      exact ⟨y,by simp [hy],hR⟩

theorem mapM_eq_ok_map {α β ε : Type} {f : α → Except ε β} {p : α → Prop} {g : α → β} {xs : List α}
    {ys : List β} (h : ∀ x y, f x = .ok y ↔ p x ∧ y = g x) :
    xs.mapM f = .ok ys ↔ (∀ x ∈ xs, p x) ∧ ys = xs.map g := by
  rw [mapM_eq_ok]
  simp only [h]
  constructor
  · intro hall
    induction hall with
    | nil => exact ⟨fun x hx => absurd hx List.not_mem_nil,rfl⟩
    | cons hxy _ ih =>
      obtain ⟨hp,rfl⟩ := hxy
      obtain ⟨hps,rfl⟩ := ih
      exact ⟨List.forall_mem_cons.mpr ⟨hp,hps⟩,rfl⟩
  · rintro ⟨hall,rfl⟩
    apply List.forall₂_map_right_iff.mpr
    exact List.forall₂_same.mpr fun x hx => ⟨hall x hx,rfl⟩

/-- A traversal of `c` indices gives what is expected from position `a` on. -/
theorem mapM_range_eq_ok {β τ ε : Type} {f : ℕ → Except ε β} {g : β → τ} {ys : List τ} {a c : ℕ}
    (h : ∀ i < c, ∃ y, f i = .ok y ∧ ys[a+i]? = some (g y)) :
    ∃ cs, (List.range c).mapM f = .ok cs ∧ cs.map g = (ys.drop a).take c := by
  obtain ⟨cs,hcs,hR⟩ := exists_mapM_eq_ok (f := f) (R := fun i y => ys[a+i]? = some (g y))
    fun i hi => h i (List.mem_range.mp hi)
  have hlen : cs.length = c := by rw [← hR.length_eq, List.length_range]
  refine ⟨cs,hcs,?_⟩
  apply List.ext_getElem?
  intro i
  by_cases hi : i < c
  · have hi' : i < cs.length := by omega
    have hget := (List.forall₂_iff_get.mp hR).2 i (by simpa using hi) hi'
    rw [List.getElem?_take_of_lt hi, List.getElem?_drop, List.getElem?_map,
      List.getElem?_eq_getElem hi']
    simpa using hget.symm
  · rw [List.getElem?_eq_none (by rw [List.length_map]; omega), List.getElem?_eq_none]
    rw [List.length_take, List.length_drop]
    omega

theorem toOption_eq_some {α ε : Type} {x : Except ε α} {a : α} : x.toOption = some a ↔ x = .ok a := by
  cases x <;> simp [Except.toOption]

theorem toOption_bind {α β ε : Type} (x : Except ε α) (f : α → Except ε β) :
    (x >>= f).toOption = x.toOption.bind fun a => (f a).toOption := by
  cases x <;> rfl

theorem toOption_map {α β ε : Type} (x : Except ε α) (f : α → β) : (x.map f).toOption = x.toOption.map f := by
  cases x <;> rfl

theorem toOption_mapM {α β ε : Type} (f : α → Except ε β) (xs : List α) :
    (xs.mapM f).toOption = xs.mapM fun x => (f x).toOption := by
  induction xs with
  | nil => rfl
  | cons x xs ih =>
    rw [List.mapM_cons, List.mapM_cons, toOption_bind]
    change (f x).toOption.bind _ = (f x).toOption.bind _
    congr 1
    funext y
    rw [toOption_bind, ih]
    rfl

theorem mapM_bind_mapM {α β γ : Type} (f : α → Option β) (g : β → Option γ) (xs : List α) :
    (xs.mapM f).bind (fun ys => ys.mapM g) = xs.mapM fun x => (f x).bind g := by
  induction xs with
  | nil => rfl
  | cons x xs ih =>
    rw [List.mapM_cons, List.mapM_cons, ← ih]
    cases hx : f x with
    | none => rfl
    | some y =>
      cases hxs : xs.mapM f with
      | none =>
        -- the second traversal does not come to its first element
        cases hy : g y <;> simp [hy]
      | some ys => simp

theorem forall₂_comp {α β γ : Type} {R : α → β → Prop} {S : β → γ → Prop} {Q : α → γ → Prop} {xs : List α}
    {ys : List β} {zs : List γ} (hR : List.Forall₂ R xs ys) (hS : List.Forall₂ S ys zs)
    (h : ∀ x y z, R x y → S y z → Q x z) : List.Forall₂ Q xs zs := by
  induction hR generalizing zs with
  | nil =>
    cases hS
    exact .nil
  | cons hxy _ ih =>
    cases hS with
    | cons hyz hS => exact .cons (h _ _ _ hxy hyz) (ih hS)

theorem ok_of_observed {α β ε : Type} {x : Except ε α} {f : α → β} {b : β}
    (h : x.toOption.map f = some b) : ∃ a, x = .ok a ∧ f a = b := by
  obtain ⟨a,ha,hb⟩ := Option.map_eq_some_iff.mp h
  exact ⟨a,toOption_eq_some.mp ha,hb⟩

theorem foldlM_invariant {α β ε : Type} {f : β → α → Except ε β} {P : β → Prop}
    (hf : ∀ b a b', P b → f b a = .ok b' → P b') {as : List α} {b b' : β} (hb : P b)
    (h : as.foldlM f b = .ok b') : P b' := by
  induction as generalizing b with
  | nil =>
    cases h
    exact hb
  | cons a as ih =>
    rw [List.foldlM_cons, bind_eq_ok] at h
    obtain ⟨c,hc,h⟩ := h
    exact ih (hf b a c hb hc) h

theorem foldlM_adds {α β ε : Type} {f : List β → α → Except ε (List β)} {P : α → β → Prop} {xs : List α}
    (h : ∀ x ∈ xs, ∀ bs, ∃ bs', f bs x = .ok bs' ∧ ∀ b, b ∈ bs' ↔ b ∈ bs ∨ P x b) (bs : List β) :
    ∃ bs', xs.foldlM f bs = .ok bs' ∧ ∀ b, b ∈ bs' ↔ b ∈ bs ∨ ∃ x ∈ xs, P x b := by
  induction xs generalizing bs with
  | nil => exact ⟨bs,rfl,by simp⟩
  | cons x xs ih =>
    obtain ⟨bs₁,hx,hmem₁⟩ := h x List.mem_cons_self bs
    obtain ⟨bs₂,hxs,hmem₂⟩ := ih (fun y hy => h y (List.mem_cons_of_mem x hy)) bs₁
    refine ⟨bs₂,?_,?_⟩
    · rw [List.foldlM_cons, hx]
      exact hxs
    · intro b
      rw [hmem₂, hmem₁, or_assoc, List.exists_mem_cons_iff]

theorem step_of_foldlM {α β ε : Type} {f : β → α → Except ε β} {xs : List α} {b b' : β} (h : xs.foldlM f b = .ok b') {x : α}
    (hx : x ∈ xs) : ∃ c c', f c x = .ok c' := by
  induction xs generalizing b with
  | nil => cases hx
  | cons y ys ih =>
    rw [List.foldlM_cons] at h
    obtain ⟨c,hc,h⟩ := bind_eq_ok.mp h
    rcases List.mem_cons.mp hx with rfl | hx
    · exact ⟨b,c,hc⟩
    · exact ih h hx

end Checked
