import Mathlib.Logic.Relation
import Mathlib.Order.WellFounded
import Mathlib.Order.RelClasses

/-! Work items that travel through a forest of streams along a well-founded dependency: an item
that opens streams hands its mark to each of them, an item that closes a stream may return its
mark to the parent. The results say that an item is marked in a stream in one way only. -/
namespace StreamForest
open Relation

structure Forest (σ ρ ι : Type*) where
  root : σ
  child : σ → ρ → ι → σ
  depth : σ → ℕ
  depth_root : depth root = 0
  depth_child : ∀ p x i, depth (child p x i) = depth p+1
  child_inj : ∀ {p x i q y j}, child p x i = child q y j → p = q ∧ x = y ∧ i = j

variable {σ ρ ι : Type*} {F : Forest σ ρ ι}

/-- `Below F b s`: the stream `s` is `b` or lies below it. -/
inductive Below (F : Forest σ ρ ι) (b : σ) : σ → Prop
  | refl : Below F b b
  | child {s} y j : Below F b s → Below F b (F.child s y j)

/-- The stream `s` lies below `p`, in one of the streams `x` opens there. -/
def Via (F : Forest σ ρ ι) (p : σ) (x : ρ) (s : σ) : Prop := ∃ i, Below F (F.child p x i) s

theorem Below.depth_le {b s : σ} (h : Below F b s) : F.depth b ≤ F.depth s := by
  induction h with
  | refl => exact le_rfl
  | child y j _ ih => rw [F.depth_child]; omega

theorem Below.trans {a b s : σ} (h : Below F a b) (h' : Below F b s) : Below F a s := by
  induction h' with
  | refl => exact h
  | child y j _ ih => exact .child y j ih

theorem Below.of_child {b s : σ} {y : ρ} {j : ι} (h : Below F b (F.child s y j)) :
    b = F.child s y j ∨ Below F b s := by
  generalize hc : F.child s y j = c at h
  cases h with
  | refl => exact .inl rfl
  | child y' j' h' =>
    obtain ⟨rfl,rfl,rfl⟩ := F.child_inj hc
    exact .inr h'

theorem Via.depth_lt {p s : σ} {x : ρ} (h : Via F p x s) : F.depth p < F.depth s := by
  obtain ⟨i,hi⟩ := h
  have := hi.depth_le
  rw [F.depth_child] at this
  omega

theorem Via.ne_root {p s : σ} {x : ρ} (h : Via F p x s) : s ≠ F.root := by
  rintro rfl
  have := h.depth_lt
  rw [F.depth_root] at this
  omega

theorem Via.child {p s : σ} {x : ρ} (h : Via F p x s) (y : ρ) (j : ι) :
    Via F p x (F.child s y j) := by
  obtain ⟨i,hi⟩ := h
  exact ⟨i,.child y j hi⟩

theorem via_child (p : σ) (x : ρ) (i : ι) : Via F p x (F.child p x i) := ⟨i,.refl⟩

theorem Via.of_child {p s : σ} {x y : ρ} {j : ι} (h : Via F p x (F.child s y j)) :
    (s = p ∧ y = x) ∨ Via F p x s := by
  obtain ⟨i,hi⟩ := h
  rcases hi.of_child with he | hb
  · obtain ⟨rfl,rfl,-⟩ := F.child_inj he
    exact .inl ⟨rfl,rfl⟩
  · exact .inr ⟨i,hb⟩

/-- How marks come about. `own` is a mark an item leaves in the stream it was started in,
`opened r p i` says that the item `r` of `p` opened the stream `i`, and `returned g x p i` that
`g` returned its mark from that stream of `x` to `p`. -/
structure Provenance (F : Forest σ ρ ι) (dep : ρ → ρ → Prop) (started marked own : ρ → σ → Prop)
    (opened : ρ → σ → ι → Prop) (returned : ρ → ρ → σ → ι → Prop) : Prop where
  dep_wf : WellFounded dep
  started_dep : ∀ {r s}, started r s → s ≠ F.root → ∃ d, dep d r
  started_marked : ∀ {r s d}, started r s → dep d r → marked d s
  marked_cases : ∀ {r s}, marked r s →
    own r s ∨ (∃ p i, s = F.child p r i ∧ opened r p i) ∨ ∃ x i, returned r x s i
  own_started : ∀ {r s}, own r s → started r s
  own_not_opened : ∀ {r s i}, own r s → ¬ opened r s i
  opened_started : ∀ {r p i}, opened r p i → started r p
  returned_started : ∀ {g x p i}, returned g x p i → started g (F.child p x i)
  opened_not_returned : ∀ {r p i x q j}, opened r p i → ¬ returned r x q j
  returned_once : ∀ {g h x p i j}, returned g x p i → returned h x p j →
    i = j ∧ (g = h ∨ ¬ own h (F.child p x j))

namespace Provenance
variable {dep : ρ → ρ → Prop} {started marked own : ρ → σ → Prop} {opened : ρ → σ → ι → Prop}
  {returned : ρ → ρ → σ → ι → Prop}

/-- The item got below `p` through `x`: it was started there, or it is `x` itself. -/
def Entered (F : Forest σ ρ ι) (started : ρ → σ → Prop) (opened : ρ → σ → ι → Prop)
    (d : ρ) (p : σ) (x : ρ) : Prop :=
  (∃ s, Via F p x s ∧ started d s) ∨ (d = x ∧ ∃ i, opened x p i)

section
variable (hP : Provenance F dep started marked own opened returned)
include hP

theorem irrefl {d : ρ} : ¬ TransGen dep d d := by
  intro h
  exact (WellFounded.transGen hP.dep_wf).irrefl.irrefl d h

theorem marked_entered {d x : ρ} {p s : σ} (hs : Via F p x s) (hd : marked d s) :
    Entered F started opened d p x := by
  rcases hP.marked_cases hd with hown | ⟨q,i,rfl,hq⟩ | ⟨y,i,hr⟩
  · exact .inl ⟨s,hs,hP.own_started hown⟩
  · rcases hs.of_child with ⟨rfl,rfl⟩ | hv
    · exact .inr ⟨rfl,i,hq⟩
    · exact .inl ⟨q,hv,hP.opened_started hq⟩
  · exact .inl ⟨_,hs.child y i,hP.returned_started hr⟩

theorem origin {d x : ρ} {p s : σ} {i : ι} (hs : Below F (F.child p x i) s) (hd : marked d s) :
    opened x p i ∧ ((d = x ∧ s = F.child p x i) ∨ TransGen dep x d) := by
  induction d using hP.dep_wf.induction generalizing s with
  | _ d ih =>
    -- a start below `p` has a dependency, which is marked below `p` too
    have hstart : ∀ u, Below F (F.child p x i) u → started d u →
        opened x p i ∧ TransGen dep x d := by
      intro u hu hst
      obtain ⟨e,he⟩ := hP.started_dep hst (Via.ne_root ⟨i,hu⟩)
      rcases ih e he hu (hP.started_marked hst he) with ⟨ho,⟨rfl,-⟩ | ht⟩
      · exact ⟨ho,.single he⟩
      · exact ⟨ho,ht.tail he⟩
    rcases hP.marked_cases hd with hown | ⟨q,j,rfl,hq⟩ | ⟨y,j,hr⟩
    · obtain ⟨ho,ht⟩ := hstart s hs (hP.own_started hown)
      exact ⟨ho,.inr ht⟩
    · rcases hs.of_child with he | hb
      · obtain ⟨rfl,rfl,rfl⟩ := F.child_inj he
        exact ⟨hq,.inl ⟨rfl,rfl⟩⟩
      · obtain ⟨ho,ht⟩ := hstart q hb (hP.opened_started hq)
        exact ⟨ho,.inr ht⟩
    · obtain ⟨ho,ht⟩ := hstart _ (hs.child y j) (hP.returned_started hr)
      exact ⟨ho,.inr ht⟩

theorem started_after {d x : ρ} {p s : σ} {i : ι} (hs : Below F (F.child p x i) s)
    (hd : started d s) : opened x p i ∧ TransGen dep x d := by
  obtain ⟨e,he⟩ := hP.started_dep hd (Via.ne_root ⟨i,hs⟩)
  rcases hP.origin hs (hP.started_marked hd he) with ⟨ho,⟨rfl,-⟩ | ht⟩
  · exact ⟨ho,.single he⟩
  · exact ⟨ho,ht.tail he⟩

/-- What the branch lemmas say about one item `d`: marked in two branches below `p`, or in a
branch and in `p`, it comes after an item that returned to `p`. -/
structure Branches (F : Forest σ ρ ι) (dep : ρ → ρ → Prop) (marked : ρ → σ → Prop)
    (returned : ρ → ρ → σ → ι → Prop) (d : ρ) : Prop where
  two : ∀ {p x y s s'}, x ≠ y → Via F p x s → Via F p y s' → marked d s → marked d s' →
    ∃ h i, ReflTransGen dep h d ∧ (returned h x p i ∨ returned h y p i)
  up : ∀ {p x s}, Via F p x s → marked d s → marked d p →
    ∃ h i, ReflTransGen dep h d ∧ returned h x p i

variable {r : ρ} {p s : σ} {i : ι}

theorem started_up {d x : ρ} (ih : ∀ e, dep e d → Branches F dep marked returned e)
    (hs : Via F p x s) (hd : started d s) (hp : started d p) :
    ∃ h i, TransGen dep h d ∧ returned h x p i := by
  obtain ⟨e,he⟩ := hP.started_dep hd hs.ne_root
  obtain ⟨h,i,hle,hr⟩ := (ih e he).up hs (hP.started_marked hd he) (hP.started_marked hp he)
  exact ⟨h,i,TransGen.tail' hle he,hr⟩

theorem started_two {d x y : ρ} {s' : σ} (ih : ∀ e, dep e d → Branches F dep marked returned e)
    (hxy : x ≠ y) (hs : Via F p x s) (hs' : Via F p y s') (hd : started d s) (hd' : started d s') :
    ∃ h i, TransGen dep h d ∧ (returned h x p i ∨ returned h y p i) := by
  obtain ⟨e,he⟩ := hP.started_dep hd hs.ne_root
  obtain ⟨h,i,hle,hr⟩ := (ih e he).two hxy hs hs' (hP.started_marked hd he)
    (hP.started_marked hd' he)
  exact ⟨h,i,TransGen.tail' hle he,hr⟩

/-- An item `h` that left its stream `s` unmarked, and a later item that is marked in `s`: the
way between them went down into a branch `z` of `s` and came back. -/
theorem detour {h f : ρ} (hst : started h s) (hh : ¬ marked h s) (hhf : TransGen dep h f)
    (hf : marked f s) :
    ∃ g z k u, TransGen dep h g ∧ returned g z s k ∧ Via F s z u ∧ marked h u := by
  induction f using (WellFounded.transGen hP.dep_wf).induction with
  | _ f ih =>
    have hback : ∀ e, TransGen dep e f → ReflTransGen dep h e → marked e s →
        ∃ g z k u, TransGen dep h g ∧ returned g z s k ∧ Via F s z u ∧ marked h u := by
      intro e he hle hm
      rcases reflTransGen_iff_eq_or_transGen.mp hle with rfl | hlt
      · exact absurd hm hh
      · exact ih e he hlt hm
    obtain ⟨e,hle,he⟩ := TransGen.tail'_iff.mp hhf
    rcases hP.marked_cases hf with hown | ⟨p,i,rfl,ho⟩ | ⟨z,k,hr⟩
    · exact hback e (.single he) hle (hP.started_marked (hP.own_started hown) he)
    · exact absurd (hhf.trans (hP.started_after .refl hst).2) hP.irrefl
    · -- going back from `f` below `z`, either `h` is met there or `z` is left into `s`
      have hbelow : ∀ e, ReflTransGen dep h e → ∀ u, Via F s z u → marked e u →
          TransGen dep e f → (∃ u, Via F s z u ∧ marked h u) ∨
            ∃ e', ReflTransGen dep h e' ∧ TransGen dep e' f ∧ marked e' s := by
        intro e
        induction e using hP.dep_wf.induction with
        | _ e ihe =>
          intro hle u hu hm hef
          rcases reflTransGen_iff_eq_or_transGen.mp hle with rfl | hlt
          · exact .inl ⟨u,hu,hm⟩
          obtain ⟨e',hle',he'⟩ := TransGen.tail'_iff.mp hlt
          rcases hP.marked_entered hu hm with ⟨v,hv,hst⟩ | ⟨rfl,i,ho⟩
          · exact ihe e' he' hle' v hv (hP.started_marked hst he') (.head he' hef)
          · exact .inr ⟨e',hle',.head he' hef,
              hP.started_marked (hP.opened_started ho) he'⟩
      rcases hbelow e hle _ (via_child s z k) (hP.started_marked (hP.returned_started hr) he)
        (.single he) with ⟨u,hu,hm⟩ | ⟨e',hle',hef,hm⟩
      · exact ⟨f,z,k,u,hhf,hr,hu,hm⟩
      · exact hback e' hef hle' hm

theorem own_of (ihb : ∀ e, dep e r → Branches F dep marked returned e)
    (iha : ∀ h', TransGen dep h' r → ∀ {g x p i j}, returned h' x p i → returned g x p j →
      ¬ TransGen dep h' g) (hst : started r s) (hm : marked r s) : own r s := by
  rcases hP.marked_cases hm with hown | ⟨p,i,rfl,ho⟩ | ⟨x,i,hr⟩
  · exact hown
  · exact absurd (hP.started_after .refl hst).2 hP.irrefl
  · obtain ⟨h',j,hlt,hr'⟩ := hP.started_up ihb (via_child s x i) (hP.returned_started hr) hst
    exact absurd hlt (iha h' hlt hr' hr)

theorem antichain_of {h : ρ} (ihb : ∀ e, TransGen dep e h → Branches F dep marked returned e)
    (iha : ∀ h', TransGen dep h' h → ∀ {g x p i j}, returned h' x p i → returned g x p j →
      ¬ TransGen dep h' g) {g x : ρ} {j : ι} (h1 : returned h x p i) (h2 : returned g x p j) :
    ¬ TransGen dep h g := by
  intro hlt
  obtain ⟨rfl,hor⟩ := hP.returned_once h2 h1
  rcases hor with rfl | hno
  · exact hP.irrefl hlt
  have hst := hP.returned_started h1
  have hsg := hP.returned_started h2
  have hnm : ¬ marked h (F.child p x j) := fun hm =>
    hno (hP.own_of (fun e he => ihb e (.single he)) iha hst hm)
  -- `g` was started in the stream that `h` left, so the way to it is a detour
  obtain ⟨e,hle,he⟩ := TransGen.tail'_iff.mp hlt
  have hem := hP.started_marked hsg he
  rcases reflTransGen_iff_eq_or_transGen.mp hle with rfl | hle
  · exact hnm hem
  obtain ⟨f,z,k,u,hhf,hrf,hu,hm⟩ := hP.detour hst hnm hle hem
  rcases hP.marked_entered hu hm with ⟨v,hv,hsv⟩ | ⟨rfl,k',ho⟩
  · obtain ⟨h',k',hlt',hr'⟩ := hP.started_up (fun e he => ihb e (.single he)) hv hsv hst
    exact iha h' hlt' hr' hrf (hlt'.trans hhf)
  · exact hP.opened_not_returned ho h1

theorem branches_of {d : ρ} (ih : ∀ e, dep e d → Branches F dep marked returned e)
    (iha : ∀ h', TransGen dep h' d → ∀ {g x p i j}, returned h' x p i → returned g x p j →
      ¬ TransGen dep h' g) : Branches F dep marked returned d := by
  have hle : ∀ {P : ρ → Prop}, (∃ h, TransGen dep h d ∧ P h) → ∃ h, ReflTransGen dep h d ∧ P h :=
    fun ⟨h,hlt,hh⟩ => ⟨h,hlt.to_reflTransGen,hh⟩
  refine ⟨?_,?_⟩
  · intro p x y s s' hxy hs hs' hm hm'
    rcases hP.marked_entered hs hm with ⟨u,hu,hst⟩ | ⟨rfl,i,ho⟩
    · rcases hP.marked_entered hs' hm' with ⟨u',hu',hst'⟩ | ⟨rfl,i,ho⟩
      · obtain ⟨h,i,hlt,hr⟩ := hP.started_two ih hxy hu hu' hst hst'
        exact ⟨h,i,hlt.to_reflTransGen,hr⟩
      · obtain ⟨h,i,hlt,hr⟩ := hP.started_up ih hu hst (hP.opened_started ho)
        exact ⟨h,i,hlt.to_reflTransGen,.inl hr⟩
    · rcases hP.marked_entered hs' hm' with ⟨u',hu',hst'⟩ | ⟨rfl,j,ho'⟩
      · obtain ⟨h,j,hlt,hr⟩ := hP.started_up ih hu' hst' (hP.opened_started ho)
        exact ⟨h,j,hlt.to_reflTransGen,.inr hr⟩
      · exact absurd rfl hxy
  · intro p x s hs hm hp
    rcases hP.marked_cases hp with hown | ⟨q,i,rfl,ho⟩ | ⟨y,j,hr⟩
    · rcases hP.marked_entered hs hm with ⟨u,hu,hst⟩ | ⟨rfl,i,ho⟩
      · obtain ⟨h,i,hlt,hr⟩ := hP.started_up ih hu hst (hP.own_started hown)
        exact ⟨h,i,hlt.to_reflTransGen,hr⟩
      · exact absurd ho (hP.own_not_opened hown)
    · -- `d` opened `p` itself, so it cannot be marked below
      obtain ⟨k,hk⟩ := hs
      have hb : Below F (F.child q d i) s := Below.trans (.child x k .refl) hk
      have hdep := Via.depth_lt ⟨k,hk⟩
      rcases (hP.origin hb hm).2 with ⟨-,rfl⟩ | ht
      · exact absurd hdep (lt_irrefl _)
      · exact absurd ht hP.irrefl
    · by_cases hyx : y = x
      · subst hyx
        exact ⟨d,j,.refl,hr⟩
      have hst := hP.returned_started hr
      rcases hP.marked_entered hs hm with ⟨u,hu,hsu⟩ | ⟨rfl,i,ho⟩
      · obtain ⟨h,i,hlt,hor⟩ := hP.started_two ih (Ne.symm hyx) hu (via_child p y j) hsu hst
        rcases hor with hx | hy
        · exact ⟨h,i,hlt.to_reflTransGen,hx⟩
        · exact absurd hlt (iha h hlt hy hr)
      · exact absurd hr (hP.opened_not_returned ho)

theorem branches_antichain (d : ρ) : Branches F dep marked returned d ∧
    ∀ {g x p i j}, returned d x p i → returned g x p j → ¬ TransGen dep d g := by
  induction d using (WellFounded.transGen hP.dep_wf).induction with
  | _ d ih =>
    have hb : ∀ e, TransGen dep e d → Branches F dep marked returned e := fun e he => (ih e he).1
    refine ⟨hP.branches_of (fun e he => hb e (.single he)) fun h' hh => (ih h' hh).2,?_⟩
    exact hP.antichain_of hb fun h' hh => (ih h' hh).2

theorem branches (d : ρ) : Branches F dep marked returned d := (hP.branches_antichain d).1

theorem antichain {g h x : ρ} {j : ι} (h1 : returned h x p i) (h2 : returned g x p j) :
    ¬ TransGen dep h g := (hP.branches_antichain h).2 h1 h2

theorem own_of_started (hst : started r s) (hm : marked r s) : own r s :=
  hP.own_of (fun e _ => hP.branches e) (fun _ _ => hP.antichain) hst hm

theorem not_started_of_returned {g x : ρ} (hr : returned g x p i) : ¬ started g p := by
  intro hst
  obtain ⟨h,j,hlt,hh⟩ := hP.started_up (fun e _ => hP.branches e) (via_child p x i)
    (hP.returned_started hr) hst
  exact hP.antichain hh hr hlt

theorem opened_of_marked (hm : marked r (F.child p r i)) :
    opened r p i := (hP.origin .refl hm).1

theorem returned_inj {g x y : ρ} {j : ι} (h1 : returned g x p i) (h2 : returned g y p j) :
    x = y ∧ i = j := by
  by_cases hxy : x = y
  · subst hxy
    exact ⟨rfl,(hP.returned_once h1 h2).1⟩
  · obtain ⟨h,k,hlt,hor⟩ := hP.started_two (fun e _ => hP.branches e) hxy (via_child p x i)
      (via_child p y j) (hP.returned_started h1) (hP.returned_started h2)
    rcases hor with hx | hy
    · exact absurd hlt (hP.antichain hx h1)
    · exact absurd hlt (hP.antichain hy h2)

end
end Provenance
end StreamForest
