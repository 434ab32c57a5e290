/-
  Reading an effect from a card's sentence.

  A restriction is `【…】` with something between the brackets; the first one of the text
  counts. A gate is `〈…〉` with something between the brackets and the text behind it up to
  the next `。` or `〈`. Changes behind a gate are conditional. The base changes are read from
  what is left when first the restrictions and then the gates are cut out.

  Gates without text behind them open no block, but they are cut out too. `gate` takes the
  least number of characters that must stand behind the brackets.
-/
import CramSchool.Effect.Phrase

namespace CramSchool

open Text

/-- A non-empty text between two brackets. The first closing bracket behind the opening one
    ends it. -/
def bracketed (opening closing : Char) : Pattern (List Char) := fun text =>
  match text with
  | [] => none
  | c :: rest =>
    if c = opening then
      let content := rest.takeWhile (· ≠ closing)
      if content ≠ [] ∧ closing ∈ rest then some (content, content.length + 2) else none
    else none

/-- A restriction, `【…】`. -/
def restriction : Pattern (List Char) :=
  bracketed Marker.restrictionOpen Marker.restrictionClose

/-- A condition in its brackets and the text behind them. -/
structure Gate where
  condition : List Char
  effect : List Char
deriving DecidableEq

/-- A gate, `〈…〉`, with at least `least` characters of effect text behind it. -/
def gate (least : Nat) : Pattern Gate := do
  let condition ← bracketed Marker.conditionOpen Marker.conditionClose
  let effect ← Pattern.run fun c => c ≠ Marker.terminator ∧ c ≠ Marker.conditionOpen
  if effect.length < least then Pattern.never else pure ⟨condition, effect⟩

/-- The block of changes that a gate opens. -/
def Gate.block (g : Gate) : Block :=
  ⟨.ofText (trim g.condition), deltasOf (trim g.effect)⟩

/-- The text outside all restrictions. -/
def unrestricted (text : List Char) : List Char := without text (restriction.findAll text)

/-- The text that base changes are read from. -/
def baseText (text : List Char) : List Char :=
  without (unrestricted text) ((gate 0).findAll (unrestricted text))

namespace Effect

/-- The effect that a sentence describes. -/
def ofChars (text : List Char) : Effect where
  restrictions := ((restriction.values text).head?.map rolesOf).getD []
  base := deltasOf (baseText text)
  blocks := ((gate 1).values text).map Gate.block

/-- The effect that a card's sentence describes. -/
def ofText (text : String) : Effect := ofChars text.toList

end Effect

end CramSchool
