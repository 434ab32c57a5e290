/-
  What the player owns: stats and the cards in deck, hand and role slots.

  The top of the deck is the end of its list. Cards move between the three places as values;
  no move but `addToDeck` and `removeFromDeck` changes which cards the player owns.
-/
import CramSchool.Pile.Draw
import CramSchool.Random.Generator
import CramSchool.Role
import CramSchool.Stats

namespace CramSchool

structure Player where
  stats : Stats
  deck : List Card
  hand : List Card
  placed : PerRole (Option Card)
deriving DecidableEq

namespace Player

/-- Opening stats and no cards. -/
def fresh : Player := ⟨.opening, [], [], .replicate none⟩

/-- Lays a card on top of the deck and records the turn. -/
def addToDeck (p : Player) (card : Card) (turn : UInt8) : Player :=
  { p with deck := p.deck ++ [card.stamped turn] }

/-- Shuffles the deck. -/
def shuffleDeck (p : Player) (g : Generator) : Player × Generator :=
  let (deck, g') := g.shuffle p.deck
  ({ p with deck }, g')

/-- Takes the card at a place of the deck out of the game. -/
def removeFromDeck (p : Player) (i : Nat) : Option Card × Player :=
  (p.deck[i]?, { p with deck := p.deck.eraseIdx i })

/-- Takes the card at a place of the hand. -/
def removeFromHand (p : Player) (i : Nat) : Option Card × Player :=
  (p.hand[i]?, { p with hand := p.hand.eraseIdx i })

/-- Turn that a card sorts under: its turn of acquisition, or 0. -/
def acquired (card : Card) : Nat := (card.acquiredTurn.getD 0).toNat

/-- Places of the deck, those of the oldest cards first; cards of one turn keep their
    order. -/
def deckByAcquisition (p : Player) : List Nat :=
  (p.deck.zipIdx.mergeSort fun a b => acquired a.1 ≤ acquired b.1).map Prod.snd

/-- Draws up to `count` cards into the hand and gives their number. -/
def drawHand (p : Player) (m : Machine) (catalog : Catalog) (count : Nat)
    (forced : List String) : Except Stop (Nat × Player) := do
  let (cards, left) ← Pile.draw m catalog count forced p.deck
  return (cards.length, { p with deck := left, hand := p.hand ++ cards })

/-- Puts a card into a slot and gives the card that was there. -/
def place (p : Player) (role : Role) (card : Card) : Option Card × Player :=
  (p.placed.get role, { p with placed := p.placed.set role (some card) })

/-- Empties a slot. -/
def takePlaced (p : Player) (role : Role) : Option Card × Player :=
  (p.placed.get role, { p with placed := p.placed.set role none })

/-- Empties every slot and gives the cards in the order of roles. -/
def clearPlaced (p : Player) : List Card × Player :=
  (p.placed.present, { p with placed := .replicate none })

/-- Lays the placed cards, then the hand, on top of the deck. -/
def returnAll (p : Player) : Player :=
  { p with
    deck := p.deck ++ p.placed.present ++ p.hand
    hand := []
    placed := .replicate none }

/-- All cards the player owns. -/
def cards (p : Player) : List Card := p.deck ++ p.hand ++ p.placed.present

def cardCount (p : Player) : Nat := p.deck.length + p.hand.length + p.placed.present.length

end Player

end CramSchool
