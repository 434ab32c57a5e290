/-
  Sound sessions: what is checked when a stored session is taken up.

  A session is sound if its turn is in the calendar or the game has ended, its stats are within
  their bounds, and an offer is pending only in training. That is the check of a
  snapshot (`sound_iff_check`), and it is all that the operations need. Initial sessions are sound
  (`Initial.sound`), and moving on from a sound session leads to a sound one
  (`Transition.sound`).
-/
import CramSchool.Proofs.Session.Choices
import CramSchool.Proofs.Session.Run
import CramSchool.Proofs.Stats.Bounds

namespace CramSchool

/-- A stored state passes the check exactly if none of its three parts fails. -/
theorem Snapshot.check_eq_ok_iff (snap : Snapshot) :
    snap.check = .ok () ↔
      (snap.turn.toNat < turnCount ∨ snap.turn.toNat = turnCount ∧ snap.phase = .finished) ∧
        snap.stats.Valid ∧ (snap.offer.isSome → snap.phase = .training) := by
  unfold check
  constructor
  · intro h
    split at h
    · simp at h
    · next hturn =>
        split at h
        · simp at h
        · next hstats =>
            split at h
            · simp at h
            · next hoffer =>
                refine ⟨not_not.mp hturn, not_not.mp hstats, fun hsome => ?_⟩
                exact not_not.mp fun hphase => hoffer ⟨hsome, hphase⟩
  · intro ⟨hturn, hstats, hoffer⟩
    rw [if_neg (not_not.mpr hturn), if_neg (not_not.mpr hstats), if_neg]
    exact fun ⟨hsome, hphase⟩ => hphase (hoffer hsome)

/-- In the calendar or at the end, stats within bounds, an offer in training only. -/
structure Session.Sound (s : Session) : Prop where
  turn : s.turn.toNat < turnCount ∨ s.turn.toNat = turnCount ∧ s.phase = .finished
  stats : s.player.stats.Valid
  offer : s.offer.isSome → s.phase = .training

namespace Session

/-- The check of a stored session asks for no less and no more. -/
theorem sound_iff_check (s : Session) : s.Sound ↔ s.snapshot.check = .ok () := by
  rw [Snapshot.check_eq_ok_iff]
  exact ⟨fun h => ⟨h.turn, h.stats, h.offer⟩, fun ⟨h1, h2, h3⟩ => ⟨h1, h2, h3⟩⟩

theorem Sound.turn_lt {s : Session} (h : s.Sound) (hphase : s.phase ≠ .finished) :
    s.turn.toNat < turnCount := h.turn.resolve_right fun he => hphase he.2

theorem Sound.offer_eq_none {s : Session} (h : s.Sound) (hphase : s.phase ≠ .training) :
    s.offer = none := Option.not_isSome_iff_eq_none.mp fun hsome => hphase (h.offer hsome)

/-! ## Transitions keep soundness -/

theorem sound_offered {s : Session} (hturn : s.turn.toNat < turnCount)
    (hstats : s.player.stats.Valid) (plan : TurnPlan) : (s.offered plan).Sound :=
  ⟨.inl hturn, hstats, fun _ => rfl⟩

theorem MeetingOver.sound {s t : Session} (h : MeetingOver s t) (hturn : s.turn.toNat < turnCount)
    (hstats : s.player.stats.Valid) (hoffer : s.offer = none) : t.Sound := by
  cases h with
  | last hlast =>
      refine ⟨.inr ⟨rfl, rfl⟩, hstats, fun hsome => ?_⟩
      change s.offer.isSome at hsome
      simp [hoffer] at hsome
  | next hnext hplan hroom =>
      refine sound_offered (s := s.nextTurn) ?_ hstats _
      show (s.turn + 1).toNat < turnCount
      rw [toNat_turn_succ hturn]
      exact hnext

theorem Transition.sound {s t : Session} (h : Transition s t) (hs : s.Sound) : t.Sound := by
  cases h with
  | begin hphase _ _ => exact sound_offered (hs.turn_lt (by simp [hphase])) hs.stats _
  | play hphase hoffer _ =>
      refine ⟨.inl (hs.turn_lt (by simp [hphase])), hs.stats, fun hsome => ?_⟩
      change s.offer.isSome at hsome
      simp [hoffer] at hsome
  | meet hphase _ _ =>
      refine ⟨.inl (hs.turn_lt (by simp [hphase])), hs.stats, fun hsome => ?_⟩
      change s.offer.isSome at hsome
      simp [hs.offer_eq_none (by simp [hphase])] at hsome
  | skip hphase _ _ hover =>
      exact hover.sound (hs.turn_lt (by simp [hphase])) hs.stats
        (hs.offer_eq_none (by simp [hphase]))
  | dismiss hphase hover =>
      exact hover.sound (hs.turn_lt (by simp [hphase])) hs.stats
        (hs.offer_eq_none (by simp [hphase]))

/-- A session with other cards in the same phase and turn is as sound. -/
theorem Sound.withCards {s t : Session} (h : s.Sound) (hturn : t.turn = s.turn)
    (hphase : t.phase = s.phase) (hoffer : t.offer = s.offer)
    (hstats : t.player.stats = s.player.stats) : t.Sound :=
  ⟨by rw [hturn, hphase]; exact h.turn, by rw [hstats]; exact h.stats,
    by rw [hoffer, hphase]; exact h.offer⟩

/-! ## Cards and stats -/

theorem stats_foldl_addToDeck (p : Player) (cards : List Card) (turn : UInt8) :
    (cards.foldl (fun p card => p.addToDeck card turn) p).stats = p.stats := by
  induction cards generalizing p with
  | nil => rfl
  | cons card cards ih => exact ih (p.addToDeck card turn)

theorem valid_resolveCard {stats : Stats} (h : stats.Valid) (plan : TurnPlan) (role : Role)
    (card : Card) (memo : Memo) : (resolveCard plan role card stats memo).2.1.Valid := by
  unfold resolveCard
  dsimp only
  apply Memo.valid_play
  split
  · exact Stats.valid_change h plan.stat 1
  · exact h

theorem valid_resolveCards {stats : Stats} (h : stats.Valid) (plan : TurnPlan)
    (placed : List (Role × Card)) (memo : Memo) :
    (resolveCards plan placed stats memo).2.1.Valid := by
  induction placed generalizing stats memo with
  | nil => exact h
  | cons first rest ih => exact ih (valid_resolveCard h plan first.1 first.2 memo) _

/-! ## Initial sessions -/

theorem sound_restart (s : Session) : s.restart.Sound :=
  ⟨.inl (by decide : (0 : UInt8).toNat < turnCount), Stats.valid_opening, by
    intro h
    change (none : Option (List Card)).isSome at h
    simp at h⟩

theorem Initial.sound {s : Session} (h : Initial s) : s.Sound := by
  cases h with
  | new machine catalog config => exact sound_restart _
  | @restored machine catalog config snap s h =>
      unfold restore at h
      split at h
      · simp at h
      · next hcheck =>
          obtain ⟨hturn, hstats, hoffer⟩ := snap.check_eq_ok_iff.mp hcheck
          rw [← Except.ok.inj h]
          exact ⟨hturn, hstats, hoffer⟩

end Session

end CramSchool
