/-
  What a player does in a session.

  The choices of each phase are checked first; a choice that fails a check is refused before
  anything happens. `selected` checks a list of places: each must exist and none may
  repeat, and the first that fails is named.
-/
import CramSchool.Effect.Preview
import CramSchool.Session.Basic

namespace CramSchool

/-- What became of one placed card. -/
structure Resolution where
  role : Role
  card : String
  /-- Stats before the bonus and the card. -/
  before : Stats
  /-- Stats after both. -/
  after : Stats
  /-- Whether the card earned the bonus of the turn. -/
  recommended : Bool
  outcome : Except Rejection Report

/-- Whether the card was played. -/
def Resolution.applied (r : Resolution) : Bool := r.outcome.isOk

/-- Checks places of a list of `size` cards, with `earlier` the places selected before. -/
def checkSelection (size : Nat) (earlier : List Nat) : List Nat → Except Refusal Unit
  | [] => .ok ()
  | i :: rest =>
    if size ≤ i then .error (.selectionIndex i size)
    else if i ∈ earlier then .error (.duplicateSelection i)
    else checkSelection size (earlier ++ [i]) rest

/-- Resolves one card: the bonus of the turn if the card earns it, then the card itself. -/
def resolveCard (plan : TurnPlan) (role : Role) (card : Card) (stats : Stats) (memo : Memo) :
    Resolution × Stats × Memo :=
  let recommended := plan.recommends card
  let boosted := if recommended then (stats.change plan.stat 1).2 else stats
  let played := memo.play card role boosted
  (⟨role, card.name, stats, played.stats, recommended, played.outcome⟩, played.stats, played.memo)

/-- Resolves cards in order. -/
def resolveCards (plan : TurnPlan) : List (Role × Card) → Stats → Memo →
    List Resolution × Stats × Memo
  | [], stats, memo => ([], stats, memo)
  | (role, card) :: rest, stats, memo =>
    let (first, stats, memo) := resolveCard plan role card stats memo
    let (more, stats, memo) := resolveCards plan rest stats memo
    (first :: more, stats, memo)

/-- The cards at some places; none if a place is behind the last card. -/
def cardsAt? (cards : List Card) (places : List Nat) : Option (List Card) :=
  places.mapM fun i => cards[i]?

/-- Takes the cards at the given places out of a list, the hindmost first. -/
def eraseAll {α : Type} (xs : List α) (places : List Nat) : List α :=
  (places.mergeSort fun i j => j ≤ i).foldl List.eraseIdx xs

namespace Session

/-- Begins the game and gives the opening offer. -/
def startGame (s : Session) : Except Stop (Moved (List Card)) :=
  match s.requirePhase .start with
  | .error refusal => .ok (.error refusal, s)
  | .ok () => do
    match ← s.advance with
    | (.error refusal, s) => return (.error refusal, s)
    | (.ok _, s) => return (.ok (s.offer.getD []), s)

/-- Checks a choice from the offer and gives the offer. -/
def checkTraining (s : Session) (picks : List Nat) : Except Refusal (List Card) := do
  s.requirePhase .training
  match s.offer with
  | none => throw .noPendingOffer
  | some offer =>
    let expected := min (s.config.picks s.turn) offer.length
    if picks.length ≠ expected then throw (.selectionCount expected picks.length)
    checkSelection offer.length [] picks
    pure offer

/-- Takes the chosen cards of the offer into the deck and moves on. -/
def confirmTraining (s : Session) (picks : List Nat) : Except Stop (Moved Phase) :=
  match s.checkTraining picks with
  | .error refusal => .ok (.error refusal, s)
  | .ok offer =>
    match cardsAt? offer picks with
    | none => .error .noCard
    | some chosen =>
      let player := chosen.foldl (fun p card => p.addToDeck card s.turn) s.player
      advance { s with offer := none, player }

/-- Moves a card of the hand into an empty slot and gives advice on it. A card that the role
    may not play can be placed too. -/
def placeCard (s : Session) (i : Nat) (role : Role) : Moved Preview :=
  match s.requirePhase .action with
  | .error refusal => (.error refusal, s)
  | .ok () =>
    if (s.player.placed.get role).isSome then (.error (.slotOccupied role), s)
    else
      match s.player.removeFromHand i with
      | (none, _) => (.error (.handIndex i s.player.hand.length), s)
      | (some card, player) =>
        (.ok (card.preview role player.stats), { s with player := (player.place role card).2 })

/-- Returns the card of a slot to the hand and says whether there was one. -/
def unplace (s : Session) (role : Role) : Moved Bool :=
  match s.requirePhase .action with
  | .error refusal => (.error refusal, s)
  | .ok () =>
    match s.player.takePlaced role with
    | (none, _) => (.ok false, s)
    | (some card, player) =>
      (.ok true, { s with player := { player with hand := player.hand ++ [card] } })

/-- Returns all placed cards to the hand and gives their number. -/
def clearPlaced (s : Session) : Moved Nat :=
  match s.requirePhase .action with
  | .error refusal => (.error refusal, s)
  | .ok () =>
    let (cards, player) := s.player.clearPlaced
    (.ok cards.length, { s with player := { player with hand := player.hand ++ cards } })

/-- Advice on a card of the hand in a slot. -/
def previewHand (s : Session) (i : Nat) (role : Role) : Option Preview :=
  s.player.hand[i]?.map fun card => card.preview role s.player.stats

/-- Resolves the placed cards in the order of roles. They stay in their slots. -/
def resolvePlaced (s : Session) : Moved (List Resolution) :=
  match s.requirePhase .action with
  | .error refusal => (.error refusal, s)
  | .ok () =>
    match s.plan with
    | .error refusal => (.error refusal, s)
    | .ok plan =>
      let (resolutions, stats, memo) :=
        resolveCards plan s.player.placed.occupied s.player.stats s.memo
      (.ok resolutions, { s with player := { s.player with stats }, memo })

/-- Resolves the placed cards and moves on. -/
def confirmActions (s : Session) : Except Stop (Moved (List Resolution)) :=
  match s.resolvePlaced with
  | (.error refusal, s) => .ok (.error refusal, s)
  | (.ok resolutions, s) => do
    match ← s.advance with
    | (.error refusal, s) => return (.error refusal, s)
    | (.ok _, s) => return (.ok resolutions, s)

/-- Checks a choice of cards to delete. -/
def checkMeeting (s : Session) (places : List Nat) : Except Refusal Unit := do
  s.requirePhase .meeting
  let plan ← s.plan
  if plan.deleteQuota < places.length then
    throw (.deleteQuotaExceeded plan.deleteQuota places.length)
  checkSelection s.player.deck.length [] places

/-- Deletes the cards at the given places of the deck and moves on. -/
def confirmMeeting (s : Session) (places : List Nat) : Except Stop (Moved Phase) :=
  match s.checkMeeting places with
  | .error refusal => .ok (.error refusal, s)
  | .ok () =>
    advance { s with player := { s.player with deck := eraseAll s.player.deck places } }

end Session

end CramSchool
