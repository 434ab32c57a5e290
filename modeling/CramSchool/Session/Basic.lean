/-
  A session: one player's game in progress.

  A session moves from phase to phase.

    start     the opening offer is drawn                            to training
    training  the picks join the deck, the hand is drawn            to action
    action    the placed cards resolve, all cards return            to meeting
    meeting   cards are deleted, the next offer is drawn            to training
    meeting   on the last turn                                      to the end

  On a turn without deletions the meeting is passed through. `advance` makes one such move
  and does not ask for the choices of the phase it leaves.

  A move gives an answer or a refusal, and the session after it (`Moved`). A move that draws cards
  may find no room for them on the machine; then the program stops, and there is neither. The
  same goes for a turn that cannot be counted up and for a place without a card.
-/
import CramSchool.Calendar
import CramSchool.Config
import CramSchool.Effect.Play
import CramSchool.Pile.Pools
import CramSchool.Player
import CramSchool.Session.Refusal

namespace CramSchool

structure Session where
  /-- The machine that the session runs on. -/
  machine : Machine
  config : Config
  catalog : Catalog
  pools : Pools
  player : Player
  /-- Turn being played, from 0; the number of turns once the game has ended. -/
  turn : UInt8
  phase : Phase
  /-- Cards offered by the training, until the choice is made. -/
  offer : Option (List Card)
  rng : Generator
  memo : Memo

/-- The answer of a move, or why it was refused, and the session after it. -/
abbrev Moved (α : Type) : Type := Except Refusal α × Session

namespace Session

/-- The calendar entry of the turn. -/
def plan? (s : Session) : Option TurnPlan := TurnPlan.ofTurn? s.turn

/-- The calendar entry of the turn, which must be in the calendar. -/
def plan (s : Session) : Except Refusal TurnPlan :=
  match s.plan? with
  | some plan => .ok plan
  | none => .error (.turnOutOfRange s.turn)

/-- Refuses in all phases but one. -/
def requirePhase (s : Session) (expected : Phase) : Except Refusal Unit :=
  if s.phase = expected then .ok () else .error (.wrongPhase expected s.phase)

/-- Shuffles one pool. -/
def shufflePool (s : Session) (rarity : Rarity) : Session :=
  let (pools, rng) := s.pools.shuffle rarity s.rng
  { s with pools, rng }

/-- Starts a new game: full pools, starter cards in the deck, and the pools of R, SR and SSR
    shuffled. The generator goes on from where it is. -/
def restart (s : Session) : Session :=
  let s : Session := { s with
    pools := .ofCatalog s.catalog
    player := { Player.fresh with deck := s.catalog.starters }
    turn := 0
    phase := .start
    offer := none }
  ((s.shufflePool .r).shufflePool .sr).shufflePool .ssr

/-- A session with a new game. -/
def new (machine : Machine) (catalog : Catalog) (config : Config) : Session :=
  restart
    { machine, config, catalog
      pools := .empty
      player := .fresh
      turn := 0
      phase := .start
      offer := none
      rng := .ofSeed config.seed
      memo := .empty }

/-- Draws up to `count` cards from a training pool. -/
def drawTraining (s : Session) (rarity : Rarity) (count : Nat) :
    Except Stop (List Card × Session) := do
  let (cards, pools) ← s.pools.draw s.machine s.catalog rarity count s.config.forced.training
  return (cards, { s with pools })

/-- Draws up to `count` cards into the hand and gives their number. -/
def drawHand (s : Session) (count : Nat) : Except Stop (Nat × Session) := do
  let (drawn, player) ← s.player.drawHand s.machine s.catalog count s.config.forced.hand
  return (drawn, { s with player })

/-- Draws the offer of the turn. -/
def enterTraining (s : Session) : Except Stop (Moved Unit) :=
  match s.plan with
  | .error refusal => .ok (.error refusal, s)
  | .ok plan => do
    let (cards, s) ← s.drawTraining plan.trainingRarity (s.config.offerSize s.turn)
    return (.ok (), { s with offer := some cards, phase := .training })

/-- Shuffles the deck and draws the hand. -/
def enterAction (s : Session) : Except Stop (Moved Unit) := do
  let (player, rng) := s.player.shuffleDeck s.rng
  let s : Session := { s with phase := .action, player, rng }
  let (_, s) ← s.drawHand s.config.handSize.toNat
  return (.ok (), s)

/-- Returns all cards to the deck. -/
def enterMeeting (s : Session) : Session :=
  { s with phase := .meeting, player := s.player.returnAll }

/-- The turn after a turn. -/
def succTurn (turn : UInt8) : Except Stop UInt8 :=
  if turn.toNat + 1 < UInt8.size then .ok (turn + 1) else .error .turnOverflow

/-- Ends the turn: the next one begins, or the game ends. -/
def leaveMeeting (s : Session) : Except Stop (Moved Unit) := do
  let s : Session := { s with player := s.player.returnAll }
  let next ← succTurn s.turn
  if turnCount ≤ next.toNat then
    return (.ok (), { s with turn := UInt8.ofNat turnCount, phase := .finished })
  else
    enterTraining { s with turn := next }

/-- Returns all cards, and stays in the meeting if cards may be deleted. -/
def leaveAction (s : Session) : Except Stop (Moved Unit) :=
  match s.plan with
  | .error refusal => .ok (.error refusal, s)
  | .ok plan =>
    if plan.deleteQuota = 0 then s.enterMeeting.leaveMeeting else .ok (.ok (), s.enterMeeting)

/-- Leaves the phase for the next one. -/
def leavePhase (s : Session) : Except Stop (Moved Unit) :=
  match s.phase with
  | .start => s.enterTraining
  | .training => if s.offer.isSome then .ok (.error .offerPending, s) else s.enterAction
  | .action => s.leaveAction
  | .meeting => s.leaveMeeting
  | .finished => .ok (.error .gameOver, s)

/-- Moves to the next phase and gives it. -/
def advance (s : Session) : Except Stop (Moved Phase) := do
  match ← s.leavePhase with
  | (.error refusal, s) => return (.error refusal, s)
  | (.ok (), s) => return (.ok s.phase, s)

end Session

end CramSchool
