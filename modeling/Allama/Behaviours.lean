/-! Computations of a runtime that ask for things while they run, and what confines them. -/
namespace Behaviours
variable {Q A V E H : Type}

/-- A computation over a heap: it returns or raises, asks for something and goes on with the answer, or tells what it does. -/
inductive Behaviour (Q A V E H : Type)
  | returns (v : V) (h : H)
  | raises (e : E) (h : H)
  | asks (request : Q) (h : H) (answer : Except E V → H → Behaviour Q A V E H)
  | tells (act : A) (next : Behaviour Q A V E H)

/-- What values, heaps, requests and acts are confined to. -/
structure Bounds (Q A V H : Type) where
  value : V → Prop
  heap : H → Prop
  request : Q → Prop
  act : A → Prop

/-- Whatever it is answered within the bounds, the computation keeps within them. -/
inductive Confined (b : Bounds Q A V H) : Behaviour Q A V E H → Prop
  | returns {v : V} {h : H} : b.value v → b.heap h → Confined b (.returns v h)
  | raises {e : E} {h : H} : b.heap h → Confined b (.raises e h)
  | asks {request : Q} {h : H} {answer : Except E V → H → Behaviour Q A V E H} : b.request request → b.heap h →
      (∀ r h', (∀ v, r = .ok v → b.value v) → b.heap h' → Confined b (answer r h')) → Confined b (.asks request h answer)
  | tells {act : A} {next : Behaviour Q A V E H} : b.act act → Confined b next → Confined b (.tells act next)

/-- What confines answers, too. -/
abbrev Answers (b : Bounds Q A V H) (answer : Except E V → H → Behaviour Q A V E H) : Prop :=
  ∀ r h, (∀ v, r = .ok v → b.value v) → b.heap h → Confined b (answer r h)

section
variable {b : Bounds Q A V H}

theorem Confined.of_returns {v : V} {h : H} (hb : Confined b (.returns v h : Behaviour Q A V E H)) : b.value v ∧ b.heap h := by
  cases hb with
  | returns hv hh => exact ⟨hv,hh⟩

theorem Confined.of_raises {e : E} {h : H} (hb : Confined b (.raises e h : Behaviour Q A V E H)) : b.heap h := by
  cases hb with
  | raises hh => exact hh

theorem Confined.of_asks {request : Q} {h : H} {answer : Except E V → H → Behaviour Q A V E H}
    (hb : Confined b (.asks request h answer)) : b.request request ∧ b.heap h ∧ Answers b answer := by
  cases hb with
  | asks hrequest hh hanswer => exact ⟨hrequest,hh,hanswer⟩

theorem Confined.of_tells {act : A} {next : Behaviour Q A V E H} (hb : Confined b (.tells act next)) :
    b.act act ∧ Confined b next := by
  cases hb with
  | tells hact hnext => exact ⟨hact,hnext⟩

theorem Confined.tellAll {acts : List A} {next : Behaviour Q A V E H} (hacts : ∀ act ∈ acts, b.act act) (hnext : Confined b next) :
    Confined b (acts.foldr .tells next) := by
  induction acts with
  | nil => exact hnext
  | cons act acts ih =>
    have hrest : Confined b (acts.foldr .tells next) := ih fun a ha => hacts a (List.mem_cons_of_mem _ ha)
    exact .tells (hacts act List.mem_cons_self) hrest

end
end Behaviours
