import Mathlib.Data.List.Forall2

/-! Programs with a state and exceptions: what they give from every state of an invariant that they keep. -/
namespace Stateful
variable {σ ε α β : Type}

abbrev Prog (σ ε : Type) := ExceptT ε (StateM σ)

def exec (m : Prog σ ε α) (s : σ) : Except ε α × σ := m.run.run s

@[simp] theorem exec_pure (a : α) (s : σ) : exec (pure a : Prog σ ε α) s = (.ok a,s) := rfl

@[simp] theorem exec_throw (e : ε) (s : σ) : exec (throw e : Prog σ ε α) s = (.error e,s) := rfl

@[simp] theorem exec_get (s : σ) : exec (get : Prog σ ε σ) s = (.ok s,s) := rfl

@[simp] theorem exec_set (s s' : σ) : exec (set s' : Prog σ ε PUnit) s = (.ok ⟨⟩,s') := rfl

theorem exec_bind (m : Prog σ ε α) (f : α → Prog σ ε β) (s : σ) :
    exec (m >>= f) s =
      match exec m s with
      | (.ok a,s') => exec (f a) s'
      | (.error e,s') => (.error e,s') := by
  rcases h : exec m s with ⟨_ | a,s'⟩ <;>
    simp only [exec, ExceptT.run, bind, ExceptT.bind, ExceptT.mk, StateT.run, StateT.bind] at h ⊢ <;>
    rw [h] <;> rfl

theorem exec_bind_ok {m : Prog σ ε α} {f : α → Prog σ ε β} {s s'' : σ} {b : β}
    (h : exec (m >>= f) s = (.ok b,s'')) : ∃ a s', exec m s = (.ok a,s') ∧ exec (f a) s' = (.ok b,s'') := by
  rw [exec_bind] at h
  rcases hx : exec m s with ⟨_ | a,s'⟩
  · rw [hx] at h
    cases (Prod.mk.inj h).1
  · rw [hx] at h
    exact ⟨a,s',rfl,h⟩

theorem length_of_exec_mapM {g : α → Prog σ ε β} {xs : List α} {ys : List β} {s s' : σ}
    (h : exec (xs.mapM g) s = (.ok ys,s')) : ys.length = xs.length := by
  induction xs generalizing s s' ys with
  | nil =>
    obtain rfl : [] = ys := Except.ok.inj (Prod.mk.inj h).1
    rfl
  | cons x xs ih =>
    rw [List.mapM_cons] at h
    obtain ⟨y,_,-,h⟩ := exec_bind_ok h
    obtain ⟨ys',_,hys,h⟩ := exec_bind_ok h
    obtain rfl : y :: ys' = ys := Except.ok.inj (Prod.mk.inj h).1
    rw [List.length_cons, List.length_cons, ih hys]

/-- From every state of the invariant the program ends with `r`, in a state of the invariant. -/
def Gives (I : σ → Prop) (m : Prog σ ε α) (r : Except ε α) : Prop :=
  ∀ s, I s → (exec m s).1 = r ∧ I (exec m s).2

variable {I : σ → Prop} {m : Prog σ ε α} {f : α → Prog σ ε β} {a : α} {e : ε} {r : Except ε β}

theorem Gives.pure (a : α) : Gives I (pure a : Prog σ ε α) (.ok a) := fun _ hs => ⟨rfl,hs⟩

theorem Gives.throw (e : ε) : Gives I (throw e : Prog σ ε α) (.error e) := fun _ hs => ⟨rfl,hs⟩

theorem Gives.bind (hm : Gives I m (.ok a)) (hf : Gives I (f a) r) : Gives I (m >>= f) r := by
  intro s hs
  obtain ⟨hr,hI⟩ := hm s hs
  rw [exec_bind]
  rcases hx : exec m s with ⟨_ | b,s'⟩
  · rw [hx] at hr
    cases hr
  · rw [hx] at hr hI
    obtain rfl : b = a := by injection hr
    exact hf s' hI

theorem Gives.mapM {g : α → Prog σ ε β} {xs : List α} {ys : List β}
    (h : List.Forall₂ (fun x y => Gives I (g x) (.ok y)) xs ys) : Gives I (xs.mapM g) (.ok ys) := by
  induction h with
  | nil => exact Gives.pure []
  | cons hx _ ih =>
    rw [List.mapM_cons]
    exact hx.bind (ih.bind (Gives.pure _))

theorem Gives.unique {r r' : Except ε α} (h : Gives I m r) (h' : Gives I m r') {s : σ} (hs : I s) : r = r' :=
  (h s hs).1.symm.trans (h' s hs).1

end Stateful
