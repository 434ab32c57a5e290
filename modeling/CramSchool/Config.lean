/-
  Settings of a session: the seed, the sizes of offers and of the hand, and names that are
  drawn ahead of everything else.
-/

namespace CramSchool

/-- Names of cards that are drawn first. -/
structure ForcedDraws where
  /-- For training offers. -/
  training : List String
  /-- For the hand. -/
  hand : List String
deriving DecidableEq

structure Config where
  /-- Seed of all shuffles. -/
  seed : UInt64
  /-- Cards offered by the opening draft. -/
  openingOffer : UInt64
  /-- Cards to pick from the opening draft. -/
  openingPicks : UInt64
  /-- Cards offered by the training of later turns. -/
  trainingOffer : UInt64
  /-- Cards to pick from later offers. -/
  trainingPicks : UInt64
  /-- Cards drawn into the hand on each turn. -/
  handSize : UInt64
  forced : ForcedDraws
deriving DecidableEq

namespace Config

def standard : Config := ⟨42, 4, 2, 3, 1, 4, ⟨[], []⟩⟩

/-- Number of cards offered by the training of a turn; turn 0 is the opening draft. -/
def offerSize (c : Config) (turn : UInt8) : Nat :=
  if turn = 0 then c.openingOffer.toNat else c.trainingOffer.toNat

/-- Number of cards to pick in the training of a turn. -/
def picks (c : Config) (turn : UInt8) : Nat :=
  if turn = 0 then c.openingPicks.toNat else c.trainingPicks.toNat

end Config

end CramSchool
