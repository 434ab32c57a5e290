/-
  The three staff roles and values kept one per role.

  Cards are placed one to a role and resolve in the order of `Role.all`, which
  is also the order of `PerRole.toList`.
-/
import CramSchool.Enumerated

namespace CramSchool

/-- A staff role that a card can be placed into. -/
inductive Role where
  | leader
  | teacher
  | staff
deriving DecidableEq, Repr

namespace Role

/-- All roles in the order in which they resolve. -/
def all : List Role := [leader, teacher, staff]

def name : Role → String
  | leader => "Leader"
  | teacher => "Teacher"
  | staff => "Staff"

/-- The word card texts use for the role. -/
def label : Role → String
  | leader => "室長"
  | teacher => "講師"
  | staff => "事務"

instance : Enumerated Role where
  all := all
  name := name
  label := label
  mem_all a := by cases a <;> decide

end Role

/-- One value for each role. -/
structure PerRole (α : Type) where
  leader : α
  teacher : α
  staff : α
deriving DecidableEq

namespace PerRole

variable {α : Type}

/-- The same value for every role. -/
def replicate (a : α) : PerRole α := ⟨a, a, a⟩

def get (p : PerRole α) : Role → α
  | .leader => p.leader
  | .teacher => p.teacher
  | .staff => p.staff

def set (p : PerRole α) : Role → α → PerRole α
  | .leader, a => { p with leader := a }
  | .teacher, a => { p with teacher := a }
  | .staff, a => { p with staff := a }

/-- The values with their roles, in the order in which roles resolve. -/
def toList (p : PerRole α) : List (Role × α) := Role.all.map fun role => (role, p.get role)

/-- The values that are present, with their roles. -/
def occupied (p : PerRole (Option α)) : List (Role × α) :=
  p.toList.filterMap fun (role, slot) => slot.map fun a => (role, a)

/-- The values that are present. -/
def present (p : PerRole (Option α)) : List α := p.occupied.map Prod.snd

end PerRole

end CramSchool
