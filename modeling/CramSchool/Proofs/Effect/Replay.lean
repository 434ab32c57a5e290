/-
  The changes in a report are what happened to the stats.

  `replay` makes recorded changes again, one after the other, and checks of each that the stat
  stands at the value it was recorded to start from. The changes of a write lead to the stats
  after the write (`replay_set`), at any stats, in bounds or not. They also do for a list of
  deltas (`replay_applyAll`), so for a whole effect (`Effect.replay_resolve`), and for a card that
  was played (`Card.replay_outcome`).
-/
import CramSchool.Proofs.Effect.Play
import CramSchool.Proofs.Stats.Bounds

namespace CramSchool

/-- Makes recorded changes again; none as soon as a stat is not at the value that a change starts
    from. -/
def replay : List Change → Stats → Option Stats
  | [], s => some s
  | c :: rest, s => if s.get c.stat = c.before then replay rest (s.put c.stat c.after) else none

theorem replay_cons {c : Change} {s : Stats} (h : s.get c.stat = c.before) (rest : List Change) :
    replay (c :: rest) s = replay rest (s.put c.stat c.after) := if_pos h

theorem replay_append (first more : List Change) (s : Stats) :
    replay (first ++ more) s = (replay first s).bind (replay more) := by
  induction first generalizing s with
  | nil => rfl
  | cons c rest ih =>
      rw [List.cons_append, replay, replay]
      split
      · exact ih _
      · rfl

/-! ## One write -/

namespace Stats

theorem ext_get {s t : Stats} (h : ∀ k, s.get k = t.get k) : s = t := by
  obtain ⟨experience, enrollment, satisfaction, accounting⟩ := s
  obtain rfl : experience = t.experience := h .experience
  obtain rfl : enrollment = t.enrollment := h .enrollment
  obtain rfl : satisfaction = t.satisfaction := h .satisfaction
  obtain rfl : accounting = t.accounting := h .accounting
  rfl

/-- The stat written and the enrollment account for the difference between two states that have
    all other stats in common. -/
theorem replay_changesOf {s t : Stats} {k : Stat}
    (h : ∀ j, j ≠ k → j ≠ .enrollment → s.get j = t.get j) :
    replay (s.changesOf t k) s = some t := by
  unfold changesOf
  rw [replay_cons rfl]
  by_cases hcap : k ≠ .enrollment ∧ s.enrollment ≠ t.enrollment
  -- The enrollment has moved behind the stat written.
  · have hbefore : (s.put k (t.get k)).get .enrollment = s.enrollment := by
      rw [get_put, if_neg (Ne.symm hcap.1)]
      rfl
    rw [if_pos hcap, replay_cons hbefore]
    refine congrArg some (ext_get fun j => ?_)
    rw [get_put, get_put]
    split
    · next hj => rw [hj]; rfl
    · next hj =>
        split
        · next hk => rw [hk]
        · next hk => exact h j hk hj
  -- Only the stat written has moved, or it is the enrollment itself.
  · rw [if_neg hcap]
    refine congrArg some (ext_get fun j => ?_)
    rw [get_put]
    split
    · next hk => rw [hk]
    · next hk =>
        by_cases hj : j = .enrollment
        · subst hj
          exact Decidable.byContradiction fun hne => hcap ⟨Ne.symm hk, hne⟩
        · exact h j hk hj

theorem replay_set (s : Stats) (k : Stat) (value : Points) :
    replay (s.set k value).1 s = some (s.set k value).2 := by
  refine replay_changesOf fun j hk hj => ?_
  unfold write
  rw [get_capEnrollment _ hj, get_put, if_neg hk]

end Stats

/-! ## Effects -/

theorem replay_apply (d : Delta) (s : Stats) : replay (d.apply s).1 s = some (d.apply s).2 := by
  cases d with
  | setTo stat value => exact s.replay_set stat value
  | changeBy stat amount => exact s.replay_set stat _

theorem replay_applyAll (deltas : List Delta) (s : Stats) :
    replay (applyAll deltas s).1 s = some (applyAll deltas s).2 := by
  induction deltas generalizing s with
  | nil => rfl
  | cons d rest ih =>
      rw [applyAll, replay_append, replay_apply]
      exact ih (d.apply s).2

theorem Effect.replay_resolve (e : Effect) (role : Role) (s : Stats) :
    replay (e.resolve role s).1.changes s = some (e.resolve role s).2 := by
  obtain ⟨deltas, _, hdeltas⟩ := e.exists_deltas_resolve role s
  have hreplay := replay_applyAll deltas s
  rw [hdeltas] at hreplay
  exact hreplay

/-! ## Cards -/

namespace Card

/-- The report of a card that was played leads to the stats after it. -/
theorem replay_outcome {card : Card} {role : Role} {s : Stats} {report : Report}
    (h : card.outcome role s = .ok report) :
    replay report.changes s = some (card.statsAfter role s) := by
  unfold outcome at h
  unfold statsAfter
  split at h
  · next heffect =>
      split at h
      · next hallows =>
          rw [if_pos ⟨heffect, hallows⟩, ← Except.ok.inj h]
          exact (Effect.ofText card.effect).replay_resolve role s
      · exact nomatch h
  · exact nomatch h

/-- A card that was not played leaves the stats as they are. -/
theorem statsAfter_of_rejected {card : Card} {role : Role} {s : Stats} {r : Rejection}
    (h : card.outcome role s = .error r) : card.statsAfter role s = s := by
  refine if_neg fun ⟨heffect, hallows⟩ => ?_
  unfold outcome at h
  rw [if_pos heffect, if_pos hallows] at h
  exact nomatch h

end Card

end CramSchool
