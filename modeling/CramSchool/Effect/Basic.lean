/-
  Effects: what a card's sentence means.

  An effect has the roles allowed to play the card, changes of stats that always apply,
  and blocks of changes that apply under a condition. A condition with text that the
  rules do not know never holds.
-/
import CramSchool.Stats
import CramSchool.Role

namespace CramSchool

/-- One change of a stat that a card asks for. -/
inductive Delta where
  /-- The stat becomes `value`. -/
  | setTo (stat : Stat) (value : Points)
  /-- The stat moves by `amount`. -/
  | changeBy (stat : Stat) (amount : Points)
deriving DecidableEq

/-- Makes the change, within the bounds of the stats. -/
def Delta.apply : Delta → Stats → List Change × Stats
  | .setTo stat value, s => s.set stat value
  | .changeBy stat amount, s => s.change stat amount

/-- Makes the changes in order. -/
def applyAll : List Delta → Stats → List Change × Stats
  | [], s => ([], s)
  | d :: rest, s =>
    let (first, s') := d.apply s
    let (more, final) := applyAll rest s'
    (first ++ more, final)

/-- Direction of a threshold. -/
inductive Comparator where
  | atLeast
  | atMost
deriving DecidableEq, Repr

namespace Comparator

def all : List Comparator := [atLeast, atMost]

def name : Comparator → String
  | atLeast => "Gte"
  | atMost => "Lte"

def label : Comparator → String
  | atLeast => "以上"
  | atMost => "以下"

instance : Enumerated Comparator where
  all := all
  name := name
  label := label
  mem_all a := by cases a <;> decide

def holds (c : Comparator) (value threshold : Points) : Bool :=
  match c with
  | atLeast => threshold.val ≤ value.val
  | atMost => value.val ≤ threshold.val

end Comparator

/-- What a block of changes depends on. -/
inductive Condition where
  /-- The card is played by one of these roles. -/
  | role (roles : List Role)
  /-- A stat stands at or beyond a threshold. -/
  | stat (stat : Stat) (threshold : Points) (comparator : Comparator)
  /-- Text with no known meaning. -/
  | unknown (raw : String)
deriving DecidableEq

namespace Condition

def isUnknown : Condition → Bool
  | unknown _ => true
  | _ => false

/-- Whether the condition holds for a card played by `role` at these stats. -/
def holds : Condition → Role → Stats → Bool
  | .role roles, player, _ => roles.contains player
  | .stat k threshold comparator, _, s => comparator.holds (s.get k) threshold
  | .unknown _, _, _ => false

end Condition

/-- Changes that apply under a condition. -/
structure Block where
  condition : Condition
  deltas : List Delta
deriving DecidableEq

/-- The meaning of a card's sentence. -/
structure Effect where
  /-- Roles that may play the card; empty if all may. -/
  restrictions : List Role
  /-- Changes that always apply. -/
  base : List Delta
  blocks : List Block
deriving DecidableEq

/-- Whether `role` may play the card. -/
def Effect.allows (e : Effect) (role : Role) : Bool :=
  e.restrictions.isEmpty || e.restrictions.contains role

end CramSchool
