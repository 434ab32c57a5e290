/-
  Everything that can be asked of a session, as data.

  `Session.step` carries out one operation and gives its reply and the session after it;
  `Session.run` carries out a list of them. A refused operation replies with the refusal.

  An operation that stops the program has neither a reply nor a session after it. Here the reason
  takes the place of the reply, and a run goes on from the session before the operation, as it
  would from what was last stored of it.
-/
import CramSchool.Session.Moves

namespace CramSchool

inductive Operation where
  | restart
  | startGame
  | advance
  | confirmTraining (picks : List Nat)
  | placeCard (i : Nat) (role : Role)
  | unplace (role : Role)
  | clearPlaced
  | previewHand (i : Nat) (role : Role)
  | resolvePlaced
  | confirmActions
  | confirmMeeting (places : List Nat)
  | drawTraining (rarity : Rarity) (count : Nat)
  | drawHand (count : Nat)
  | deckByAcquisition
  | plan
deriving DecidableEq

inductive Reply where
  | player (player : Player)
  | cards (cards : List Card)
  | phase (phase : Phase)
  | preview (preview : Preview)
  | advice (preview : Option Preview)
  | moved (moved : Bool)
  | count (count : Nat)
  | resolutions (resolutions : List Resolution)
  | places (places : List Nat)
  | plan (plan : Option TurnPlan)
  | refused (refusal : Refusal)
  /-- There is no reply: the program stopped. -/
  | stopped (reason : Stop)

/-- The reply to a move, given how to reply to its answer. -/
def Moved.reply {α : Type} (moved : Moved α) (answer : α → Reply) : Reply × Session :=
  match moved with
  | (.error refusal, s) => (.refused refusal, s)
  | (.ok a, s) => (answer a, s)

namespace Session

/-- The reply and the session after it; if the program stopped, why it did and the session
    before. -/
def settle (s : Session) (outcome : Except Stop (Reply × Session)) : Reply × Session :=
  match outcome with
  | .error reason => (.stopped reason, s)
  | .ok x => x

/-- Carries out one operation. -/
def step (s : Session) : Operation → Reply × Session
  | .restart => (.player s.restart.player, s.restart)
  | .startGame => s.settle do return (← s.startGame).reply .cards
  | .advance => s.settle do return (← s.advance).reply .phase
  | .confirmTraining picks => s.settle do return (← s.confirmTraining picks).reply .phase
  | .placeCard i role => (s.placeCard i role).reply .preview
  | .unplace role => (s.unplace role).reply .moved
  | .clearPlaced => s.clearPlaced.reply .count
  | .previewHand i role => (.advice (s.previewHand i role), s)
  | .resolvePlaced => s.resolvePlaced.reply .resolutions
  | .confirmActions => s.settle do return (← s.confirmActions).reply .resolutions
  | .confirmMeeting places => s.settle do return (← s.confirmMeeting places).reply .phase
  | .drawTraining rarity count => s.settle do
    let (cards, t) ← s.drawTraining rarity count
    return (.cards cards, t)
  | .drawHand count => s.settle do
    let (drawn, t) ← s.drawHand count
    return (.count drawn, t)
  | .deckByAcquisition => (.places s.player.deckByAcquisition, s)
  | .plan => (.plan s.plan?, s)

/-- Carries out operations in order and gives their replies. -/
def run (s : Session) : List Operation → List Reply × Session
  | [] => ([], s)
  | op :: rest =>
    let (reply, s') := s.step op
    let (replies, final) := s'.run rest
    (reply :: replies, final)

end Session

end CramSchool
