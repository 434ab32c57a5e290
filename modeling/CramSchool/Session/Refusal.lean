/-
  Why a session refuses an action or a stored session is not taken up.
-/
import CramSchool.Role
import CramSchool.Session.Phase
import CramSchool.Stats

namespace CramSchool

inductive Refusal where
  | wrongPhase (expected actual : Phase)
  | noPendingOffer
  | offerPending
  /-- Number of cards to select and number selected. -/
  | selectionCount (expected got : Nat)
  /-- A selected place and the number of cards there are. -/
  | selectionIndex (index size : Nat)
  | duplicateSelection (index : Nat)
  | deleteQuotaExceeded (quota got : Nat)
  | handIndex (index size : Nat)
  | slotOccupied (role : Role)
  | gameOver
  | turnOutOfRange (turn : UInt8)
  | invalidStats (stats : Stats)
  | unexpectedOffer (phase : Phase)
deriving DecidableEq

namespace Refusal

/-- The four values in display order, between commas. -/
def valueList (s : Stats) : String :=
  ", ".intercalate (s.values.map fun v => toString v.val)

def message : Refusal → String
  | wrongPhase expected actual =>
    "action requires phase " ++ expected.name ++ ", session is in " ++ actual.name
  | noPendingOffer => "no training offer is pending"
  | offerPending => "the training offer has not been resolved"
  | selectionCount expected got =>
    "expected " ++ toString expected ++ " selected cards, got " ++ toString got
  | selectionIndex index size =>
    "selection index " ++ toString index ++ " out of range for " ++ toString size ++ " cards"
  | duplicateSelection index => "card " ++ toString index ++ " selected more than once"
  | deleteQuotaExceeded quota got =>
    "delete quota is " ++ toString quota ++ ", " ++ toString got ++ " cards selected"
  | handIndex index size =>
    "hand index " ++ toString index ++ " out of range for " ++ toString size ++ " cards"
  | slotOccupied role => role.label ++ " slot already holds a card"
  | gameOver => "the game has ended"
  | turnOutOfRange turn => "turn " ++ toString turn.toNat ++ " is outside the turn table"
  | invalidStats stats =>
    "stats break their bounds: Stats \x7b values: [" ++ valueList stats ++ "] \x7d"
  | unexpectedOffer phase => "a training offer cannot be pending in phase " ++ phase.name

end Refusal

end CramSchool
