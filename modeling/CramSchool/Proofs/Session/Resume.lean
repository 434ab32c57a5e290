/-
  Taking up a stored session cannot be noticed.

  A session that a run reaches is sound, so what is stored of it is accepted. The session taken up
  on the same machine has the same catalog and settings, the generator is at the same place
  again, and only the memory of sentences is gone. No operation shows the memory, so from there on
  both sessions go the same way.
-/
import CramSchool.Proofs.Binary.RoundTrip
import CramSchool.Proofs.Session.InRange
import CramSchool.Proofs.Session.Memory

namespace CramSchool.Session

/-- Taking up what is stored of a sound session gives the session without its memory. -/
theorem restore_snapshot {s : Session} (h : s.Sound) :
    restore s.machine s.catalog s.config s.snapshot = .ok (s.withMemo .empty) := by
  unfold restore
  rw [(sound_iff_check s).mp h]
  dsimp only
  rw [show Generator.ofState s.snapshot.rng = s.rng from Generator.ofState_state s.rng]
  rfl

theorem ofBytes_toBytes {s : Session} (h : s.Sound) (hfits : s.snapshot.Fits) :
    ofBytes s.machine s.catalog s.config s.snapshot.toBytes = .ok (s.withMemo .empty) := by
  have hread := Snapshot.ofBytes_toBytes_append hfits s.machine []
  rw [List.append_nil] at hread
  unfold ofBytes ofSnapshot
  rw [hread]
  exact congrArg (Except.mapError SnapshotError.invalid) (restore_snapshot h)

/-- A session that a run reaches can be taken up from what is stored of it, and the session taken
    up cannot be told from the one stored. It has the same machine, catalog, settings and
    snapshot, and every further run gives the same replies and ends with the same snapshot. Each
    beginning of a run is a run, so that holds after every step. -/
theorem resume_unobservable {s : Session} (h : s.Reachable) (hfits : s.snapshot.Fits) :
    ∃ t : Session, ofBytes s.machine s.catalog s.config s.snapshot.toBytes = .ok t ∧
      t.machine = s.machine ∧ t.catalog = s.catalog ∧ t.config = s.config ∧ t.memo = .empty ∧
      t.snapshot = s.snapshot ∧
      ∀ ops, (t.run ops).1 = (s.run ops).1 ∧
        (t.run ops).2.snapshot = (s.run ops).2.snapshot := by
  refine ⟨s.withMemo .empty, ofBytes_toBytes h.sound hfits, rfl, rfl, rfl, rfl, rfl, fun ops => ?_⟩
  obtain ⟨m, hrun⟩ := alike_run s .empty ops
  rw [hrun]
  exact ⟨rfl, rfl⟩

/-- The last action phase once its placed card has resolved: the memory holds a sentence. -/
def resolvedAction : Session := (lastAction.run [.resolvePlaced]).2

theorem resume_resolvedAction :
    resolvedAction.Reachable ∧ resolvedAction.snapshot.Fits ∧
      ∃ t : Session, ofBytes .common resolvedAction.catalog resolvedAction.config
          resolvedAction.snapshot.toBytes = .ok t ∧
        ∀ ops, (t.run ops).1 = (resolvedAction.run ops).1 ∧
          (t.run ops).2.snapshot = (resolvedAction.run ops).2.snapshot := by
  have hrestored : restore .common .empty .standard lastAction.snapshot = .ok lastAction := rfl
  have hreachable : resolvedAction.Reachable :=
    (Initial.reachable (.restored hrestored)).run [.resolvePlaced]
  have hfits : resolvedAction.snapshot.Fits :=
    { deck := ⟨by decide, List.forall_mem_nil _⟩
      hand := ⟨by decide, List.forall_mem_singleton.mpr ⟨by decide, by decide, by decide⟩⟩
      placed := by
        intro role card hcard
        cases role with
        | leader =>
            obtain rfl := Option.some.inj hcard
            exact ⟨by decide, by decide, by decide⟩
        | teacher => exact nomatch hcard
        | staff => exact nomatch hcard
      offer := fun _ hcards => nomatch hcards
      pools := fun rarity => by cases rarity <;> exact ⟨by decide, List.forall_mem_nil _⟩ }
  obtain ⟨t, ht, _, _, _, _, _, hruns⟩ := resume_unobservable hreachable hfits
  exact ⟨hreachable, hfits, t, ht, hruns⟩

end CramSchool.Session
