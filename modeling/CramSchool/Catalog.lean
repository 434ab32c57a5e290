/-
  The catalog: every card of the game, in the order of loading, with an index
  by name.

  Names may repeat. The index keeps the position of the first card of each name.
-/
import CramSchool.Card
import Std.Data.TreeMap

namespace CramSchool

/-- All known cards. -/
structure Catalog where
  /-- In the order of loading. -/
  cards : List Card
  /-- For each name, the position of its first card. -/
  firstNamed : Std.TreeMap String Nat

namespace Catalog

def empty : Catalog := ⟨[], ∅⟩

/-- Loads one more card, behind the others. -/
def register (k : Catalog) (card : Card) : Catalog :=
  ⟨k.cards ++ [card], k.firstNamed.insertIfNew card.name k.cards.length⟩

/-- Loads cards in order. -/
def ofCards (cards : List Card) : Catalog := cards.foldl register empty

/-- The card that `name` stands for. -/
def find? (k : Catalog) (name : String) : Option Card :=
  match k.firstNamed[name]? with
  | some i => k.cards[i]?
  | none => none

/-- The cards of one rarity, in the order of loading. -/
def byRarity (k : Catalog) (rarity : Rarity) : List Card :=
  k.cards.filter fun card => card.rarity == rarity

/-- The deck a game starts with: two copies of every N card. -/
def starters (k : Catalog) : List Card :=
  (k.byRarity .n).flatMap fun card => [card, card]

def size (k : Catalog) : Nat := k.cards.length

def isEmpty (k : Catalog) : Bool := k.cards.isEmpty

end Catalog

end CramSchool
