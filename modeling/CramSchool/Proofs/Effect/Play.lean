/-
  A play does not depend on the memory it draws on.

  What a memory recalls is what reading the sentence gives, so a play comes to what the
  effect of the sentence comes to (`Memo.outcome_play`, `Memo.stats_play`). The memory decides
  neither the outcome nor the stats after it; only the memory afterwards depends on it.
-/
import CramSchool.Effect.Play

namespace CramSchool

/-- The outcome of a play in terms of the sentence alone. -/
def Card.outcome (card : Card) (role : Role) (s : Stats) : Except Rejection Report :=
  if card.hasEffect then
    if (Effect.ofText card.effect).allows role then
      .ok ((Effect.ofText card.effect).resolve role s).1
    else .error (.roleRestricted card.name role (Effect.ofText card.effect).restrictions)
  else .error (.emptyEffect card.name)

/-- The stats after a play in terms of the sentence alone. -/
def Card.statsAfter (card : Card) (role : Role) (s : Stats) : Stats :=
  if card.hasEffect ∧ (Effect.ofText card.effect).allows role then
    ((Effect.ofText card.effect).resolve role s).2
  else s

namespace Memo

theorem outcome_play (m : Memo) (card : Card) (role : Role) (s : Stats) :
    (m.play card role s).outcome = card.outcome role s := by
  unfold play Card.outcome
  by_cases heffect : card.hasEffect
  · rw [if_pos heffect, if_pos heffect]
    dsimp only
    rw [recall_fst]
    split <;> rfl
  · rw [if_neg heffect, if_neg heffect]

theorem stats_play (m : Memo) (card : Card) (role : Role) (s : Stats) :
    (m.play card role s).stats = card.statsAfter role s := by
  unfold play Card.statsAfter
  by_cases heffect : card.hasEffect
  · rw [if_pos heffect]
    dsimp only
    rw [recall_fst]
    by_cases hallows : (Effect.ofText card.effect).allows role
    · rw [if_pos hallows, if_pos ⟨heffect, hallows⟩]
    · rw [if_neg hallows, if_neg fun h => hallows h.2]
  · rw [if_neg heffect, if_neg fun h => heffect h.1]

end Memo

end CramSchool
