/-
  Drawing from a pile of cards.

  The top of a pile is the end of its list. Forced names come first: each is served from the
  pile if a card of that name is there, else as a copy from the catalog, and a name that
  neither knows is passed over. The rest is taken from the top. A pile that runs out gives
  fewer cards.

  A draw has room made for as many cards as it is asked for, however few the pile has. If there
  is none, the program stops and no card is drawn.
-/
import CramSchool.Catalog
import CramSchool.Machine

namespace CramSchool

namespace Pile

/-- Takes the first card of a name out of a pile. -/
def pull (name : String) : List Card → Option (Card × List Card)
  | [] => none
  | card :: rest =>
    if card.name = name then some (card, rest)
    else (pull name rest).map fun (found, others) => (found, card :: others)

/-- Serves forced names in order, at most `count` of them. Gives the cards and the pile left. -/
def drawForced (catalog : Catalog) : (count : Nat) → List String → List Card →
    List Card × List Card
  | _, [], pile => ([], pile)
  | 0, _ :: _, pile => ([], pile)
  | count + 1, name :: names, pile =>
    match pull name pile with
    | some (card, others) =>
      let (cards, left) := drawForced catalog count names others
      (card :: cards, left)
    | none =>
      match catalog.find? name with
      | some card =>
        let (cards, left) := drawForced catalog count names pile
        (card :: cards, left)
      | none => drawForced catalog (count + 1) names pile

/-- Takes up to `count` cards from the top, the topmost first. Gives them and the pile left. -/
def drawTop (count : Nat) (pile : List Card) : List Card × List Card :=
  ((pile.drop (pile.length - count)).reverse, pile.take (pile.length - count))

/-- Serves up to `count` cards, forced names first. Gives the cards and the pile left. -/
def serve (catalog : Catalog) (count : Nat) (forced : List String) (pile : List Card) :
    List Card × List Card :=
  let (first, pile') := drawForced catalog count forced pile
  let (others, left) := drawTop (count - first.length) pile'
  (first ++ others, left)

/-- Draws up to `count` cards, forced names first. Gives the cards and the pile left. -/
def draw (m : Machine) (catalog : Catalog) (count : Nat) (forced : List String)
    (pile : List Card) : Except Stop (List Card × List Card) := do
  m.makeRoom count
  return serve catalog count forced pile

end Pile

end CramSchool
