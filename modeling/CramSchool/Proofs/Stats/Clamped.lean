/-
  A change of a stat is the exact sum, brought into range once.

  An amount is added with a stop at the ends of the range of points, then the sum is brought into
  the range of its stat, then the enrollment is capped. Stopping early makes no difference, since
  the range of every stat lies inside the range of points (`Stat.clamp_saturate`). So the stats
  after a change are those that unbounded numbers would give (`Adjusted`), and the changes that
  are listed are the ones that were made.

  `adjusted_set` is the one argument for both ways to write a stat. What is listed behind the
  stat itself follows from where the enrollment went (`enrollment_ne_iff`).
-/
import CramSchool.Proofs.Stats.Bounds

namespace CramSchool

/-! ## The range of a stat -/

/-- The greatest value of a stat. -/
def Stat.greatest : Stat → Int
  | .accounting => 15
  | _ => 9223372036854775807

/-- The value of a stat that is closest to a number. -/
def Stat.clamp (k : Stat) (n : Int) : Int := max 0 (min n k.greatest)

theorem Stat.greatest_le (k : Stat) : k.greatest ≤ 9223372036854775807 := by
  cases k <;> decide

theorem Stat.bound_eq_clamp (k : Stat) (v : Points) : k.bound v.val = k.clamp v.val := by
  have hle := v.le_greatest
  cases k <;> simp only [bound, clamp, greatest] <;> omega

/-- A number that was stopped at the ends of the range of points is as close as before. -/
theorem Stat.clamp_saturate (k : Stat) (n : Int) : k.clamp (Points.saturate n).val = k.clamp n := by
  have hle := k.greatest_le
  simp only [clamp, Points.saturate]
  omega

namespace Stats

/-! ## One change -/

/-- A stat is brought to a target, which may be any number, and `changes` says what that did. -/
structure Adjusted (s : Stats) (k : Stat) (target : Int) (changes : List Change) (after : Stats) :
    Prop where
  written : k ≠ .enrollment → (after.get k).val = k.clamp target
  /-- The enrollment is lowered to the experience if that is less now. -/
  capped : k ≠ .enrollment → after.enrollment.val = min s.enrollment.val after.experience.val
  enrolled : k = .enrollment → after.enrollment.val = min s.experience.val (k.clamp target)
  others : ∀ j, j ≠ k → j ≠ .enrollment → after.get j = s.get j
  valid : after.Valid
  changes : changes = ⟨k, s.get k, after.get k⟩ ::
    if k = .experience ∧ after.enrollment.val < s.enrollment.val then
      [⟨.enrollment, s.enrollment, after.enrollment⟩]
    else []

variable {s : Stats}

/-- Writing another stat moves the enrollment only if that is the experience, and only down. -/
theorem enrollment_ne_iff (h : s.Valid) (k : Stat) (target : Points) :
    (k ≠ .enrollment ∧ s.enrollment ≠ (s.write k target).enrollment) ↔
      k = .experience ∧ (s.write k target).enrollment.val < s.enrollment.val := by
  constructor
  · intro ⟨hk, hmoved⟩
    have henr := enrollment_write s k target
    rw [if_neg hk] at henr
    have hne : s.enrollment.val ≠ (s.write k target).enrollment.val := fun he =>
      hmoved (Points.ext he)
    refine ⟨Decidable.byContradiction fun hexp => ?_, by omega⟩
    exact hmoved (get_write_of_ne h hk (fun he => hexp he.1) target).symm
  · rintro ⟨rfl, hlow⟩
    exact ⟨by decide, fun he => Int.ne_of_gt hlow (congrArg Points.val he)⟩

/-- A write does what its target asks for, if that is as close as the number that is written. -/
theorem adjusted_set (h : s.Valid) (k : Stat) {value : Points} {target : Int}
    (htarget : k.clamp value.val = k.clamp target) :
    Adjusted s k target (s.set k value).1 (s.set k value).2 where
  written := by
    intro hk
    show ((s.write k value).get k).val = _
    rw [get_write s k value hk, if_pos rfl, k.bound_eq_clamp, htarget]
  capped := by
    intro hk
    show (s.write k value).enrollment.val = _
    rw [enrollment_write, if_neg hk]
    rfl
  enrolled := by
    rintro rfl
    have hkept : (s.write .enrollment value).experience = s.experience :=
      get_write_of_ne h (j := .experience) (by decide) (by decide) value
    show (s.write .enrollment value).enrollment.val = _
    rw [enrollment_write, if_pos rfl, hkept, Stat.bound_eq_clamp, htarget, Int.min_comm]
  others := fun j hk hj => get_write_of_ne h (Ne.symm hk) (fun he => hj he.2) value
  valid := valid_set h k value
  changes := by
    simp only [set, changesOf, enrollment_ne_iff h k value]

/-- Changing a stat is bringing it to the exact sum. -/
theorem adjusted_change (h : s.Valid) (k : Stat) (amount : Points) :
    Adjusted s k ((s.get k).val + amount.val) (s.change k amount).1 (s.change k amount).2 :=
  adjusted_set h k (k.clamp_saturate _)

/-- How far a gain can take a stat: the enrollment goes up to the experience. -/
def ceiling (s : Stats) : Stat → Int
  | .enrollment => s.experience.val
  | k => k.greatest

theorem ceiling_of_ne {k : Stat} (h : k ≠ .enrollment) : s.ceiling k = k.greatest := by
  cases k <;> first | rfl | exact absurd rfl h

/-- A gain takes its stat up to the ceiling and moves no other: the experience is not less
    afterwards, so the enrollment is not capped. -/
theorem get_change_of_nonneg (h : s.Valid) (k : Stat) {amount : Points} (hgain : 0 ≤ amount.val)
    (j : Stat) : ((s.change k amount).2.get j).val =
      if j = k then min ((s.get k).val + amount.val) (s.ceiling k) else (s.get j).val := by
  have hadjusted := adjusted_change h k amount
  have hold := h.nonneg k
  by_cases hj : j = k
  · subst hj
    rw [if_pos rfl]
    by_cases henr : j = .enrollment
    · subst henr
      have henrolled := hadjusted.enrolled rfl
      have hle := s.experience.le_greatest
      simp only [get, ceiling, Stat.clamp, Stat.greatest] at *
      omega
    · have hgreatest : 0 ≤ j.greatest := by cases j <;> decide
      rw [hadjusted.written henr, ceiling_of_ne henr, Stat.clamp]
      omega
  · rw [if_neg hj]
    by_cases henr : j = .enrollment
    · subst henr
      have hcapped := hadjusted.capped (Ne.symm hj)
      have hexp : s.experience.val ≤ (s.change k amount).2.experience.val := by
        by_cases hk : k = .experience
        · subst hk
          have hwritten := hadjusted.written (by decide)
          have hle := s.experience.le_greatest
          simp only [get, Stat.clamp, Stat.greatest] at hwritten hold
          omega
        · exact Int.le_of_eq
            (congrArg Points.val (hadjusted.others .experience (Ne.symm hk) (by decide)).symm)
      have hle := h.enrollment_le
      simp only [get]
      omega
    · rw [hadjusted.others j hj henr]

/-- Setting a stat to a number, or changing it by one, gives what exact numbers would give, brought
    into the range of the stat once: the stat is the number in its range closest to the target,
    the enrollment is at most the experience, everything else is as it was, and the changes listed
    are these. So the bounds hold after each of any changes made in order. -/
theorem updates_are_exact (h : s.Valid) (k : Stat) (n : Points) :
    Adjusted s k n.val (s.set k n).1 (s.set k n).2 ∧
      Adjusted s k ((s.get k).val + n.val) (s.change k n).1 (s.change k n).2 ∧
      ∀ (deltas : List Delta) (i : Nat), (applyAll (deltas.take i) s).2.Valid :=
  ⟨adjusted_set h k rfl, adjusted_change h k n, fun deltas i => valid_applyAll h (deltas.take i)⟩

/-- At the upper end of the range a gain of experience is lost, and a loss of all of it takes the
    enrollment along. -/
theorem fullHouse_updates_are_exact :
    let full : Stats := ⟨9223372036854775807, 20, 3, 15⟩
    full.Valid ∧ Adjusted full .experience (9223372036854775807 + 9223372036854775807)
        [⟨.experience, 9223372036854775807, 9223372036854775807⟩] full ∧
      Adjusted full .experience (9223372036854775807 + -9223372036854775807)
        [⟨.experience, 9223372036854775807, 0⟩, ⟨.enrollment, 20, 0⟩] ⟨0, 0, 3, 15⟩ := by
  intro full
  have hvalid : full.Valid := by decide
  obtain ⟨_, hgain, _⟩ := updates_are_exact hvalid .experience 9223372036854775807
  obtain ⟨_, hloss, _⟩ := updates_are_exact hvalid .experience (.saturate (-9223372036854775807))
  exact ⟨hvalid, hgain, hloss⟩

end Stats

end CramSchool
