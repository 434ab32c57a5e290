/-
  The calendar: what each of the eight turns recommends and allows.

  Turns are counted from 0. The index 8 stands for the end of the game and has no entry.
-/
import CramSchool.Card
import CramSchool.Role
import CramSchool.Stats

namespace CramSchool

/-- Entry of the calendar for one turn. -/
structure TurnPlan where
  /-- Part of the year, for display. -/
  label : String
  /-- Pool that the training offer is drawn from. -/
  trainingRarity : Rarity
  /-- Category whose cards earn the bonus. -/
  category : Category
  /-- Stat that the bonus goes to. -/
  stat : Stat
  /-- Number of cards that may be deleted in the meeting. -/
  deleteQuota : Nat
deriving DecidableEq

/-- The turns from late January to early May. -/
def calendar : List TurnPlan :=
  [⟨"1月下旬", .r, .outreach, .experience, 2⟩,
   ⟨"2月上旬", .sr, .reception, .satisfaction, 2⟩,
   ⟨"2月下旬", .r, .outreach, .experience, 1⟩,
   ⟨"3月上旬", .ssr, .administration, .accounting, 1⟩,
   ⟨"3月下旬", .ssr, .academics, .enrollment, 1⟩,
   ⟨"4月上旬", .sr, .reception, .satisfaction, 1⟩,
   ⟨"4月下旬", .sr, .academics, .enrollment, 1⟩,
   ⟨"5月上旬", .sr, .administration, .accounting, 0⟩]

/-- Number of turns in a game. -/
def turnCount : Nat := 8

namespace TurnPlan

/-- The entry for a turn. -/
def ofTurn? (turn : UInt8) : Option TurnPlan := calendar[turn.toNat]?

/-- Whether a card earns the bonus. -/
def recommends (p : TurnPlan) (card : Card) : Bool := card.category == p.category

/-- Number of placed cards that earn the bonus. -/
def recommendedCount (p : TurnPlan) (placed : PerRole (Option Card)) : Nat :=
  placed.present.countP p.recommends

theorem length_calendar : calendar.length = turnCount := rfl

theorem isSome_ofTurn? (turn : UInt8) : (ofTurn? turn).isSome ↔ turn.toNat < turnCount := by
  unfold ofTurn?
  rw [isSome_getElem?, length_calendar]

end TurnPlan

end CramSchool
