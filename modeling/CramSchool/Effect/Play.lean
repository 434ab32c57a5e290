/-
  Playing a card.

  A card without a sentence is rejected, and so is a card that its role may not play. A
  rejected card changes no stat. A play may draw on a memory of sentences read before
  (`Memo`); what the play comes to does not depend on it.
-/
import CramSchool.Card
import CramSchool.Effect.Memo
import CramSchool.Effect.Resolution

namespace CramSchool

/-- Why a card was not played. -/
inductive Rejection where
  | emptyEffect (card : String)
  | roleRestricted (card : String) (role : Role) (allowed : List Role)
deriving DecidableEq

def Rejection.message : Rejection → String
  | emptyEffect card => card ++ " has no effect text"
  | roleRestricted card role _ => card ++ " cannot be played by " ++ role.label

/-- What a play came to, and the stats and the memory after it. -/
structure Played where
  outcome : Except Rejection Report
  stats : Stats
  memo : Memo

/-- Whether the card was played. -/
def Played.applied (p : Played) : Bool := p.outcome.isOk

/-- Plays a card as `role`, with the help of a memory. -/
def Memo.play (m : Memo) (card : Card) (role : Role) (s : Stats) : Played :=
  if card.hasEffect then
    let (e, m') := m.recall card.effect
    if e.allows role then
      let (report, s') := e.resolve role s
      ⟨.ok report, s', m'⟩
    else ⟨.error (.roleRestricted card.name role e.restrictions), s, m'⟩
  else ⟨.error (.emptyEffect card.name), s, m⟩

/-- Plays a card as `role` once, without a memory. -/
def Card.play (card : Card) (role : Role) (s : Stats) : Bool × Stats :=
  let p := Memo.empty.play card role s
  (p.applied, p.stats)

end CramSchool
