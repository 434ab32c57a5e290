/-
  Stats stay within their bounds, whatever a card asks for.

  Every change of a stat is a `Stats.write`: the target is brought into the range of the stat
  alone, then the enrollment is capped. `get_write` gives each stat after a write, and
  `valid_write` the bounds. A target may be any number of points.

  The bounds then hold after a list of deltas (`valid_applyAll`), so after a whole effect
  (`valid_resolve`), and after a play, rejected or not (`valid_play`).
-/
import CramSchool.Effect.Play
import CramSchool.Proofs.Effect.Firing

namespace CramSchool

/-! ## One write -/

theorem Stat.bound_nonneg (k : Stat) (n : Int) : 0 ≤ k.bound n := by
  cases k <;> simp only [bound] <;> omega

theorem Stat.bound_le (k : Stat) {n : Int} (h : n ≤ 9223372036854775807) :
    k.bound n ≤ 9223372036854775807 := by
  cases k <;> simp only [bound] <;> omega

theorem Stat.bound_accounting_le (n : Int) : Stat.accounting.bound n ≤ 15 := by
  simp only [bound]
  omega

/-- Bringing a target into the range of its stat never leaves the range of points. -/
theorem Stat.saturate_bound (k : Stat) (target : Points) :
    (Points.saturate (k.bound target.val)).val = k.bound target.val := by
  have h1 := k.bound_nonneg target.val
  have h2 := k.bound_le target.le_greatest
  exact Points.saturate_of_mem (by omega) h2

namespace Stats

theorem get_put (s : Stats) (k j : Stat) (v : Points) :
    (s.put k v).get j = if j = k then v else s.get j := by
  cases k <;> cases j <;> rfl

/-- The cap leaves all stats but the enrollment as they are. -/
theorem get_capEnrollment (s : Stats) {j : Stat} (hj : j ≠ .enrollment) :
    s.capEnrollment.get j = s.get j := by
  unfold capEnrollment
  split
  · cases j <;> first | rfl | exact absurd rfl hj
  · rfl

theorem enrollment_capEnrollment (s : Stats) :
    s.capEnrollment.enrollment.val = min s.enrollment.val s.experience.val := by
  unfold capEnrollment
  split
  · show s.experience.val = _
    omega
  · omega

/-- A stat other than the enrollment after a write. -/
theorem get_write (s : Stats) (k : Stat) (target : Points) {j : Stat} (hj : j ≠ .enrollment) :
    ((s.write k target).get j).val = if j = k then k.bound target.val else (s.get j).val := by
  unfold write
  rw [get_capEnrollment _ hj, get_put]
  split
  · exact k.saturate_bound target
  · rfl

/-- The enrollment after a write: what was written or kept, but at most the experience. -/
theorem enrollment_write (s : Stats) (k : Stat) (target : Points) :
    (s.write k target).enrollment.val =
      min (if k = .enrollment then k.bound target.val else s.enrollment.val)
        (s.write k target).experience.val := by
  have hexp : (s.write k target).experience =
      (s.put k (.saturate (k.bound target.val))).experience :=
    get_capEnrollment _ (j := .experience) (by decide)
  have hput : (s.put k (.saturate (k.bound target.val))).enrollment.val =
      if k = .enrollment then k.bound target.val else s.enrollment.val := by
    show ((s.put k (.saturate (k.bound target.val))).get .enrollment).val = _
    rw [get_put]
    by_cases hk : k = .enrollment
    · rw [if_pos hk.symm, if_pos hk]
      exact k.saturate_bound target
    · rw [if_neg (Ne.symm hk), if_neg hk]
      rfl
  rw [hexp, ← hput]
  exact enrollment_capEnrollment _

/-- A write moves no stat but its own and, if that is the experience, the enrollment. -/
theorem get_write_of_ne {s : Stats} (h : s.Valid) {k j : Stat} (hne : k ≠ j)
    (hcap : ¬(k = .experience ∧ j = .enrollment)) (target : Points) :
    (s.write k target).get j = s.get j := by
  refine Points.ext ?_
  by_cases hj : j = .enrollment
  · subst hj
    have hexperience := get_write s k target (j := .experience) (by decide)
    rw [if_neg fun he => hcap ⟨he.symm, rfl⟩] at hexperience
    have henrollment := enrollment_write s k target
    rw [if_neg hne] at henrollment
    have hle := h.enrollment_le
    simp only [get] at hexperience ⊢
    omega
  · rw [get_write s k target hj, if_neg (Ne.symm hne)]

theorem valid_write {s : Stats} (h : s.Valid) (k : Stat) (target : Points) :
    (s.write k target).Valid := by
  have hb := k.bound_nonneg target.val
  have hrest : ∀ j, j ≠ Stat.enrollment → 0 ≤ ((s.write k target).get j).val := by
    intro j hj
    rw [get_write s k target hj]
    split
    · exact hb
    · exact h.nonneg j
  have hexp := hrest .experience (by decide)
  have henr := enrollment_write s k target
  have henr0 := h.nonneg .enrollment
  refine ⟨fun j => ?_, ?_, ?_⟩
  · by_cases hj : j = .enrollment
    · subst hj
      show 0 ≤ (s.write k target).enrollment.val
      simp only [get] at henr0 hexp
      split at henr <;> omega
    · exact hrest j hj
  · have hacc := get_write s k target (j := .accounting) (by decide)
    show ((s.write k target).get .accounting).val ≤ 15
    rw [hacc]
    split
    · next hk => subst hk; exact Stat.bound_accounting_le _
    · exact h.accounting_le
  · rw [henr]
    exact Int.min_le_right _ _

theorem valid_set {s : Stats} (h : s.Valid) (k : Stat) (value : Points) :
    (s.set k value).2.Valid := valid_write h k value

theorem valid_change {s : Stats} (h : s.Valid) (k : Stat) (amount : Points) :
    (s.change k amount).2.Valid := valid_write h k _

theorem valid_opening : opening.Valid := by decide

end Stats

/-! ## Effects -/

theorem Delta.valid_apply {s : Stats} (h : s.Valid) (d : Delta) : (d.apply s).2.Valid := by
  cases d with
  | setTo k value => exact Stats.valid_set h k value
  | changeBy k amount => exact Stats.valid_change h k amount

theorem valid_applyAll {s : Stats} (h : s.Valid) (ds : List Delta) : (applyAll ds s).2.Valid := by
  induction ds generalizing s with
  | nil => exact h
  | cons d ds ih => exact ih (d.valid_apply h)

theorem Effect.valid_resolve {s : Stats} (h : s.Valid) (e : Effect) (role : Role) :
    (e.resolve role s).2.Valid := by
  obtain ⟨deltas, _, hdeltas⟩ := e.exists_deltas_resolve role s
  have hvalid := valid_applyAll h deltas
  rw [hdeltas] at hvalid
  exact hvalid

/-- A play keeps the bounds. A rejected one keeps the stats. -/
theorem Memo.valid_play {s : Stats} (h : s.Valid) (m : Memo) (card : Card) (role : Role) :
    (m.play card role s).stats.Valid := by
  unfold play
  split
  · dsimp only
    split
    · exact Effect.valid_resolve h _ role
    · exact h
  · exact h

end CramSchool
