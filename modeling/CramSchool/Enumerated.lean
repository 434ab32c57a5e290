/-
  Finite kinds listed in a fixed order: stats, roles, rarities, card
  categories, comparators, phases.

  Each member has a name, under which it is stored, and a label, under which it
  is printed. `mem_all` says that the list misses nobody, so a member is found
  again at its own index (`getElem?_idxOf_all`).
-/

namespace CramSchool

/-- A kind with finitely many members, listed in a fixed order, each with a
    stored name and a printed label. -/
class Enumerated (α : Type) [DecidableEq α] where
  all : List α
  name : α → String
  label : α → String
  mem_all : ∀ a : α, a ∈ all

namespace Enumerated

variable {α : Type} [DecidableEq α] [Enumerated α]

/-- Position of a member in the fixed order, from 0. -/
def index (a : α) : Nat := (all (α := α)).idxOf a

/-- Number of members. -/
def count (α : Type) [DecidableEq α] [Enumerated α] : Nat := (all (α := α)).length

/-- The member stored under `text`. -/
def ofName? (text : String) : Option α := all.find? fun a => name a == text

/-- The member printed as `text`. -/
def ofLabel? (text : String) : Option α := all.find? fun a => label a == text

/-- The member at a position of the fixed order. -/
def ofIndex? (i : Nat) : Option α := (all (α := α))[i]?

theorem ofIndex?_index (a : α) : ofIndex? (index a) = some a := by
  have h : List.idxOf a (all (α := α)) < (all (α := α)).length :=
    List.idxOf_lt_length_iff.mpr (mem_all a)
  unfold ofIndex? index
  rw [List.getElem?_eq_getElem h, List.getElem_idxOf h]

end Enumerated

end CramSchool
