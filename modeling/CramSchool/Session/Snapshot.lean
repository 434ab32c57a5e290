/-
  Snapshots: what is stored of a session.

  A snapshot holds all that changes during a session except the memory of sentences, which
  no answer depends on. Machine, catalog and settings are given again when a session is taken
  up. `check` is what a stored state must satisfy: a turn of the calendar or the end of the
  game, stats within their bounds, and an offer only in the training phase.
-/
import CramSchool.Session.Basic

namespace CramSchool

structure Snapshot where
  stats : Stats
  deck : List Card
  hand : List Card
  placed : PerRole (Option Card)
  turn : UInt8
  phase : Phase
  offer : Option (List Card)
  pools : Pools
  rng : GeneratorState
deriving DecidableEq

/-- Refuses a state that no session can be in. -/
def Snapshot.check (snap : Snapshot) : Except Refusal Unit :=
  if ¬(snap.turn.toNat < turnCount ∨ snap.turn.toNat = turnCount ∧ snap.phase = .finished) then
    .error (.turnOutOfRange snap.turn)
  else if ¬snap.stats.Valid then .error (.invalidStats snap.stats)
  else if snap.offer.isSome ∧ snap.phase ≠ .training then .error (.unexpectedOffer snap.phase)
  else .ok ()

namespace Session

/-- What is stored of the session. -/
def snapshot (s : Session) : Snapshot where
  stats := s.player.stats
  deck := s.player.deck
  hand := s.player.hand
  placed := s.player.placed
  turn := s.turn
  phase := s.phase
  offer := s.offer
  pools := s.pools
  rng := s.rng.state

/-- Takes up a stored session. Nothing is drawn or shuffled. -/
def restore (machine : Machine) (catalog : Catalog) (config : Config) (snap : Snapshot) :
    Except Refusal Session :=
  match snap.check with
  | .error refusal => .error refusal
  | .ok () => .ok
    { machine, config, catalog
      pools := snap.pools
      player := ⟨snap.stats, snap.deck, snap.hand, snap.placed⟩
      turn := snap.turn
      phase := snap.phase
      offer := snap.offer
      rng := .ofState snap.rng
      memo := .empty }

end Session

end CramSchool
