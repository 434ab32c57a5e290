/-
  Cards: rarity, category, texts, and the turn on which the card entered the
  deck.

  The turn is written once. A later `markAcquired` leaves it alone.
-/
import CramSchool.Enumerated

namespace CramSchool

/-- Rarity tier. Each tier has a training pool of its own. -/
inductive Rarity where
  | n
  | r
  | sr
  | ssr
deriving DecidableEq, Repr

namespace Rarity

/-- All tiers, lowest first. -/
def all : List Rarity := [n, r, sr, ssr]

def label : Rarity → String
  | n => "N"
  | r => "R"
  | sr => "SR"
  | ssr => "SSR"

instance : Enumerated Rarity where
  all := all
  name := label
  label := label
  mem_all a := by cases a <;> decide

end Rarity

/-- Kind of work a card stands for, which each turn recommends one of. -/
inductive Category where
  /-- Recruiting in the neighbourhood. -/
  | outreach
  /-- The front desk. -/
  | reception
  /-- General administration. -/
  | administration
  /-- Teaching affairs. -/
  | academics
deriving DecidableEq, Repr

namespace Category

def all : List Category := [outreach, reception, administration, academics]

def name : Category → String
  | outreach => "Outreach"
  | reception => "Reception"
  | administration => "Administration"
  | academics => "Academics"

def label : Category → String
  | outreach => "動員"
  | reception => "応対"
  | administration => "庶務"
  | academics => "教務"

instance : Enumerated Category where
  all := all
  name := name
  label := label
  mem_all a := by cases a <;> decide

end Category

/-- A card. -/
structure Card where
  category : Category
  rarity : Rarity
  name : String
  /-- Short text for display. -/
  topEffect : String
  /-- The effect sentence, which the rules read. -/
  effect : String
  /-- Turn on which the card first entered the deck. -/
  acquiredTurn : Option UInt8
deriving DecidableEq

namespace Card

/-- Whether there is an effect sentence to resolve. -/
def hasEffect (c : Card) : Bool := c.effect ≠ ""

/-- Records the turn of acquisition unless one is recorded already, and says
    whether it did. -/
def markAcquired (c : Card) (turn : UInt8) : Bool × Card :=
  match c.acquiredTurn with
  | some _ => (false, c)
  | none => (true, { c with acquiredTurn := some turn })

/-- The card as it enters the deck on `turn`. -/
def stamped (c : Card) (turn : UInt8) : Card := (c.markAcquired turn).2

end Card

end CramSchool
