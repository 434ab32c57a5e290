/-
  Runs of operations and the sessions they reach.

  `Initial` are the sessions nothing was asked of yet: new ones, and stored ones that were taken
  up. `Reachable` are the sessions a run leads to from there. A property that the initial
  sessions have and every operation keeps holds of all of them (`Reachable.invariant`).
-/
import CramSchool.Session.Operation
import CramSchool.Session.Snapshot

namespace CramSchool.Session

/-! ## Runs -/

theorem run_append (s : Session) (ops more : List Operation) :
    s.run (ops ++ more) =
      ((s.run ops).1 ++ ((s.run ops).2.run more).1, ((s.run ops).2.run more).2) := by
  induction ops generalizing s with
  | nil => rfl
  | cons op ops ih =>
      simp only [List.cons_append, run]
      rw [ih]

/-- What the operations of some kind keep, a run of them keeps. -/
theorem run_invariant_of_forall {P : Session → Prop} {A : Operation → Prop}
    (hstep : ∀ s op, A op → P s → P (s.step op).2) {s : Session} (h : P s) {ops : List Operation}
    (hops : ∀ op ∈ ops, A op) : P (s.run ops).2 := by
  induction ops generalizing s with
  | nil => exact h
  | cons op ops ih =>
      obtain ⟨hop, hrest⟩ := List.forall_mem_cons.mp hops
      exact ih (hstep s op hop h) hrest

/-- What every operation keeps, a run keeps. -/
theorem run_invariant {P : Session → Prop} (hstep : ∀ s op, P s → P (s.step op).2)
    {s : Session} (h : P s) (ops : List Operation) : P (s.run ops).2 :=
  run_invariant_of_forall (A := fun _ => True) (fun s op _ => hstep s op) h fun _ _ => trivial

/-! ## Reachable sessions -/

/-- Sessions that nothing was asked of yet. -/
inductive Initial : Session → Prop
  | new (machine : Machine) (catalog : Catalog) (config : Config) :
      Initial (Session.new machine catalog config)
  | restored {machine : Machine} {catalog : Catalog} {config : Config} {snap : Snapshot}
      {s : Session} (h : Session.restore machine catalog config snap = .ok s) : Initial s

/-- Sessions that some operations lead to from an initial one. -/
def Reachable (s : Session) : Prop :=
  ∃ (s₀ : Session) (ops : List Operation), Initial s₀ ∧ (s₀.run ops).2 = s

theorem Initial.reachable {s : Session} (h : Initial s) : Reachable s := ⟨s, [], h, rfl⟩

theorem Reachable.run {s : Session} (h : Reachable s) (ops : List Operation) :
    Reachable (s.run ops).2 := by
  obtain ⟨s₀, before, h₀, rfl⟩ := h
  exact ⟨s₀, before ++ ops, h₀, by rw [run_append]⟩

theorem Reachable.invariant {P : Session → Prop} (hinit : ∀ s, Initial s → P s)
    (hstep : ∀ s op, P s → P (s.step op).2) {s : Session} (h : Reachable s) : P s := by
  obtain ⟨s₀, ops, h₀, rfl⟩ := h
  exact run_invariant hstep (hinit s₀ h₀) ops

end CramSchool.Session
