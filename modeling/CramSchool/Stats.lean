/-
  The four stats of a classroom and the one rule that changes them.

  Accounting stays in `0..15` and the other stats are at least 0. After each write
  the enrollment is capped by the experience, so at most two stats move at
  once: the one written and, behind it, the enrollment.

  `Stats.Valid` states the bounds. `Stats.set` and `Stats.change` return the
  changes they realized, which may be smaller than the ones asked for.
-/
import CramSchool.Enumerated
import CramSchool.Points

namespace CramSchool

/-- One of the four stats. -/
inductive Stat where
  /-- Trial lessons booked. -/
  | experience
  /-- Students enrolled, never more than had a trial lesson. -/
  | enrollment
  /-- Satisfaction of the customers. -/
  | satisfaction
  /-- Health of the books. -/
  | accounting
deriving DecidableEq, Repr

namespace Stat

/-- All stats in display order. -/
def all : List Stat := [experience, enrollment, satisfaction, accounting]

def name : Stat → String
  | experience => "Experience"
  | enrollment => "Enrollment"
  | satisfaction => "Satisfaction"
  | accounting => "Accounting"

/-- The word card texts use for the stat. -/
def label : Stat → String
  | experience => "体験"
  | enrollment => "入塾"
  | satisfaction => "満足"
  | accounting => "経理"

instance : Enumerated Stat where
  all := all
  name := name
  label := label
  mem_all a := by cases a <;> decide

/-- Brings a number into the range of the stat alone, the other stats aside. -/
def bound : Stat → Int → Int
  | accounting, n => max 0 (min n 15)
  | _, n => max 0 n

end Stat

/-- The values of the four stats. -/
structure Stats where
  experience : Points
  enrollment : Points
  satisfaction : Points
  accounting : Points
deriving DecidableEq

/-- A change of one stat, from the value before to the value after. -/
structure Change where
  stat : Stat
  before : Points
  after : Points
deriving DecidableEq

/-- How far the stat really moved. -/
def Change.realized (c : Change) : Int := c.after.val - c.before.val

namespace Stats

/-- The values a game opens with. -/
def opening : Stats := ⟨0, 0, 3, 3⟩

def get (s : Stats) : Stat → Points
  | .experience => s.experience
  | .enrollment => s.enrollment
  | .satisfaction => s.satisfaction
  | .accounting => s.accounting

/-- Overwrites one stat and checks nothing. -/
def put (s : Stats) : Stat → Points → Stats
  | .experience, v => { s with experience := v }
  | .enrollment, v => { s with enrollment := v }
  | .satisfaction, v => { s with satisfaction := v }
  | .accounting, v => { s with accounting := v }

/-- Lowers the enrollment to the experience if it is above. -/
def capEnrollment (s : Stats) : Stats :=
  if s.experience.val < s.enrollment.val then { s with enrollment := s.experience } else s

/-- Writes `target`, brought into the range of the stat, and caps the enrollment. -/
def write (s : Stats) (stat : Stat) (target : Points) : Stats :=
  (s.put stat (Points.saturate (stat.bound target.val))).capEnrollment

/-- The changes a write makes: the stat written, then the enrollment if the cap
    moved it. -/
def changesOf (before after : Stats) (stat : Stat) : List Change :=
  ⟨stat, before.get stat, after.get stat⟩ ::
    if stat ≠ .enrollment ∧ before.enrollment ≠ after.enrollment then
      [⟨.enrollment, before.enrollment, after.enrollment⟩]
    else []

/-- Sets a stat to a value, within the bounds. -/
def set (s : Stats) (stat : Stat) (value : Points) : List Change × Stats :=
  let after := s.write stat value
  (s.changesOf after stat, after)

/-- Adds an amount to a stat, within the bounds. -/
def change (s : Stats) (stat : Stat) (amount : Points) : List Change × Stats :=
  s.set stat ((s.get stat).add amount)

/-- Stats made of any four numbers, each brought into its range. -/
def ofValues (experience enrollment satisfaction accounting : Points) : Stats :=
  let bounded (stat : Stat) (v : Points) : Points := .saturate (stat.bound v.val)
  capEnrollment
    ⟨bounded .experience experience, bounded .enrollment enrollment,
      bounded .satisfaction satisfaction, bounded .accounting accounting⟩

/-- The values in display order. -/
def values (s : Stats) : List Points := Stat.all.map s.get

/-- The bounds: no stat is negative, accounting is at most 15, and the enrollment is
    at most the experience. -/
structure Valid (s : Stats) : Prop where
  nonneg : ∀ stat, 0 ≤ (s.get stat).val
  accounting_le : s.accounting.val ≤ 15
  enrollment_le : s.enrollment.val ≤ s.experience.val

theorem valid_iff (s : Stats) :
    s.Valid ↔ (0 ≤ s.experience.val ∧ 0 ≤ s.enrollment.val ∧ 0 ≤ s.satisfaction.val ∧
      0 ≤ s.accounting.val) ∧ s.accounting.val ≤ 15 ∧ s.enrollment.val ≤ s.experience.val := by
  constructor
  · intro h
    exact ⟨⟨h.nonneg .experience, h.nonneg .enrollment, h.nonneg .satisfaction,
      h.nonneg .accounting⟩, h.accounting_le, h.enrollment_le⟩
  · intro ⟨⟨h1, h2, h3, h4⟩, ha, he⟩
    refine ⟨fun stat => ?_, ha, he⟩
    cases stat <;> assumption

instance (s : Stats) : Decidable s.Valid := decidable_of_iff _ (valid_iff s).symm

end Stats

end CramSchool
