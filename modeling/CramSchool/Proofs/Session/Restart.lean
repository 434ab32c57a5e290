/-
  A restart leaves nothing of the game before it.

  A restart writes everything a game consists of: pools, stats, cards, turn, phase and offer. What
  it takes from the session is the catalog, the settings and the generator, and what it leaves
  alone is the memory of sentences (`restart_eq`). The memory cannot be seen.

  So two sessions on one machine, with the same catalog, settings and generator, are the same to
  any observer once both are restarted, whatever was played in them before
  (`restart_leaks_nothing`). What an observer has is the `trace` of a run.
-/
import CramSchool.Proofs.Session.Memory
import CramSchool.Proofs.Session.Offers

namespace CramSchool

/-- What is stored of a generator is all of it. -/
theorem Generator.eq_of_state {g g' : Generator} (h : g.state = g'.state) : g = g' := by
  rw [← ofState_state g, h, ofState_state]

namespace Session

/-! ## Traces -/

/-- All that can be seen of a run: the reply to each operation and what is stored after it. -/
def trace (s : Session) : List Operation → List (Reply × Snapshot)
  | [] => []
  | op :: rest => ((s.step op).1, (s.step op).2.snapshot) :: (s.step op).2.trace rest

/-- The memory leaves no mark on a trace. -/
theorem trace_withMemo (s : Session) (m : Memo) (ops : List Operation) :
    (s.withMemo m).trace ops = s.trace ops := by
  induction ops generalizing s m with
  | nil => rfl
  | cons op ops ih =>
      obtain ⟨m', hstep⟩ := alike_step s op m
      unfold trace
      rw [hstep, ih (s.step op).2 m']
      rfl

/-! ## New games -/

theorem trace_restart (s : Session) (ops : List Operation) :
    s.trace (.restart :: ops) =
      (.player s.restart.player, s.restart.snapshot) :: s.restart.trace ops := rfl

/-- What is left of the session before is its memory. -/
theorem restart_eq {s t : Session} (hmachine : s.machine = t.machine)
    (hcatalog : s.catalog = t.catalog) (hconfig : s.config = t.config) (hrng : s.rng = t.rng) :
    t.restart = s.restart.withMemo t.memo := by
  unfold restart shufflePool
  rw [hmachine, hcatalog, hconfig, hrng]
  rfl

/-- A restart leaks nothing of the game before it. Take any two sessions on one machine with the
    same catalog, the same settings and the same state of the generator, in any phase, on any turn,
    with any stats, cards, offer, pools and memory. Restarted, both give the same reply to the
    restart and to every operation after it, and what is stored after each step is the same. -/
theorem restart_leaks_nothing {s t : Session} (hmachine : s.machine = t.machine)
    (hcatalog : s.catalog = t.catalog) (hconfig : s.config = t.config)
    (hrng : s.rng.state = t.rng.state) (ops : List Operation) :
    s.trace (.restart :: ops) = t.trace (.restart :: ops) := by
  have hrestart := restart_eq hmachine hcatalog hconfig (Generator.eq_of_state hrng)
  rw [trace_restart, trace_restart, hrestart, trace_withMemo]
  rfl

/-- A game in its first action phase. A card was drafted, placed and resolved, so a pool is
    empty, the stats have moved, and the memory holds a sentence. -/
def underway : Session :=
  ((new .common twoCards .standard).run
    [.startGame, .confirmTraining [0], .placeCard 0 .leader, .resolvePlaced]).2

/-- Restarted, it cannot be told from a new game. -/
theorem underway_leaks_nothing :
    underway.phase = .action ∧ underway.pools.get .r = [] ∧ underway.memo.size = 1 ∧
      underway.rng.state = (new .common twoCards .standard).rng.state ∧
      ∀ ops, underway.trace (.restart :: ops) =
        (new .common twoCards .standard).trace (.restart :: ops) := by
  have hrng : underway.rng.state = (new .common twoCards .standard).rng.state := rfl
  exact ⟨rfl, rfl, rfl, hrng, restart_leaks_nothing rfl rfl rfl hrng⟩

end Session

end CramSchool
