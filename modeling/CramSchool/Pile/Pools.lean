/-
  The training pools: one pile of cards for each rarity.

  Pools are filled from the catalog in the order of loading. A card drawn from a pool does
  not come back.
-/
import CramSchool.Pile.Draw
import CramSchool.Random.Generator

namespace CramSchool

/-- A pile for each rarity. -/
structure Pools where
  n : List Card
  r : List Card
  sr : List Card
  ssr : List Card
deriving DecidableEq

namespace Pools

def empty : Pools := ⟨[], [], [], []⟩

def get (p : Pools) : Rarity → List Card
  | .n => p.n
  | .r => p.r
  | .sr => p.sr
  | .ssr => p.ssr

def set (p : Pools) : Rarity → List Card → Pools
  | .n, pile => { p with n := pile }
  | .r, pile => { p with r := pile }
  | .sr, pile => { p with sr := pile }
  | .ssr, pile => { p with ssr := pile }

/-- The pools in the order of rarities. -/
def toList (p : Pools) : List (List Card) := Rarity.all.map p.get

/-- Lays a card on top of the pool of its rarity. -/
def add (p : Pools) (card : Card) : Pools := p.set card.rarity (p.get card.rarity ++ [card])

/-- The pools of a new game. -/
def ofCatalog (k : Catalog) : Pools := k.cards.foldl add empty

/-- Shuffles one pool. -/
def shuffle (p : Pools) (rarity : Rarity) (g : Generator) : Pools × Generator :=
  let (pile, g') := g.shuffle (p.get rarity)
  (p.set rarity pile, g')

/-- Draws up to `count` cards from one pool, forced names first. -/
def draw (p : Pools) (m : Machine) (catalog : Catalog) (rarity : Rarity) (count : Nat)
    (forced : List String) : Except Stop (List Card × Pools) := do
  let (cards, left) ← Pile.draw m catalog count forced (p.get rarity)
  return (cards, p.set rarity left)

end Pools

end CramSchool
