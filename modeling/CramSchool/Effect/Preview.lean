/-
  What playing a card would come to at given stats.

  A preview says whether the role may play the card and which conditions do not hold right
  now. Conditions that the rules do not know are not listed.
-/
import CramSchool.Card
import CramSchool.Effect.Reading

namespace CramSchool

/-- Advice on a card in a role. -/
structure Preview where
  /-- Whether the role may play the card. -/
  allowed : Bool
  /-- Known conditions that do not hold, in the order of the sentence. -/
  unmet : List Condition
deriving DecidableEq

/-- Allowed, and every known condition holds. -/
def Preview.isClean (p : Preview) : Bool := p.allowed && p.unmet.isEmpty

/-- Advice on playing the card as `role` at these stats. -/
def Card.preview (card : Card) (role : Role) (s : Stats) : Preview :=
  let e := Effect.ofText card.effect
  ⟨e.allows role, (e.blocks.map Block.condition).filter fun c => !c.isUnknown && !c.holds role s⟩

end CramSchool
