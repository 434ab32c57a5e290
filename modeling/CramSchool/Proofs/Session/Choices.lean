/-
  What the checks of a player's choices say.

  `checkSelection_nil_eq_ok_iff`: a selection passes exactly if every place is in range and none
  occurs twice. Then there are cards at all of its places (`cardsAt?_eq`). `checkTraining_eq` and
  `checkMeeting_eq` list the checks of an offer and of a meeting in their order, and
  `checkTraining_eq_ok_iff` and `checkMeeting_eq_ok_iff` say when they are all met. Besides the
  turn, which is looked up for the meeting, no check can name the turn as the reason of a refusal.
-/
import CramSchool.Proofs.Session.Transition
import CramSchool.Session.Moves
import Mathlib.Logic.Basic

namespace CramSchool

/-! ## Selections -/

theorem checkSelection_eq_ok_iff {size : Nat} {earlier places : List Nat} :
    checkSelection size earlier places = .ok () ↔
      (∀ i ∈ places, i < size ∧ i ∉ earlier) ∧ places.Nodup := by
  induction places generalizing earlier with
  | nil => simp [checkSelection]
  | cons i rest ih =>
      unfold checkSelection
      by_cases hsize : size ≤ i
      · rw [if_pos hsize]
        have hlt : ¬i < size := by omega
        simp [hlt]
      · rw [if_neg hsize]
        by_cases hearlier : i ∈ earlier
        · rw [if_pos hearlier]
          simp [hearlier]
        · rw [if_neg hearlier, ih, List.forall_mem_cons, List.nodup_cons]
          constructor
          · intro ⟨hall, hnodup⟩
            refine ⟨⟨⟨by omega, hearlier⟩, fun j hj => ?_⟩, fun hi => ?_, hnodup⟩
            · exact ⟨(hall j hj).1, fun he => (hall j hj).2 (List.mem_append_left [i] he)⟩
            · exact (hall i hi).2 (List.mem_append_right earlier List.mem_cons_self)
          · intro ⟨⟨_, hall⟩, hi, hnodup⟩
            refine ⟨fun j hj => ⟨(hall j hj).1, fun he => ?_⟩, hnodup⟩
            obtain he | he := List.mem_append.mp he
            · exact (hall j hj).2 he
            · exact hi (List.mem_singleton.mp he ▸ hj)

/-- A whole selection passes if it names different places that exist. -/
theorem checkSelection_nil_eq_ok_iff {size : Nat} {places : List Nat} :
    checkSelection size [] places = .ok () ↔ (∀ i ∈ places, i < size) ∧ places.Nodup := by
  rw [checkSelection_eq_ok_iff]
  exact and_congr_left fun _ => forall₂_congr fun i _ => and_iff_left List.not_mem_nil

theorem checkSelection_error {size : Nat} {earlier places : List Nat} {r : Refusal}
    (h : checkSelection size earlier places = .error r) :
    ∃ i ∈ places, r = .selectionIndex i size ∨ r = .duplicateSelection i := by
  induction places generalizing earlier with
  | nil => simp [checkSelection] at h
  | cons i rest ih =>
      unfold checkSelection at h
      split at h
      · exact ⟨i, List.mem_cons_self, .inl (Except.error.inj h).symm⟩
      · split at h
        · exact ⟨i, List.mem_cons_self, .inr (Except.error.inj h).symm⟩
        · obtain ⟨j, hj, hr⟩ := ih h
          exact ⟨j, List.mem_cons_of_mem i hj, hr⟩

theorem cardsAt?_eq {cards : List Card} {places : List Nat} (h : ∀ i ∈ places, i < cards.length) :
    cardsAt? cards places = some (places.filterMap fun i => cards[i]?) := by
  unfold cardsAt?
  induction places with
  | nil => rfl
  | cons i rest ih =>
      have hi : i < cards.length := h i List.mem_cons_self
      rw [List.mapM_cons, ih fun j hj => h j (List.mem_cons_of_mem i hj), List.filterMap_cons,
        List.getElem?_eq_getElem hi]
      rfl

theorem lt_of_cardsAt? {cards chosen : List Card} {places : List Nat}
    (h : cardsAt? cards places = some chosen) : ∀ i ∈ places, i < cards.length := by
  unfold cardsAt? at h
  induction places generalizing chosen with
  | nil => exact fun i hi => nomatch hi
  | cons i rest ih =>
      rw [List.mapM_cons] at h
      obtain ⟨card, hcard, h⟩ := Option.bind_eq_some_iff.mp h
      obtain ⟨more, hmore, _⟩ := Option.bind_eq_some_iff.mp h
      exact List.forall_mem_cons.mpr ⟨(List.getElem?_eq_some_iff.mp hcard).1, ih hmore⟩

theorem length_of_cardsAt? {cards chosen : List Card} {places : List Nat}
    (h : cardsAt? cards places = some chosen) : chosen.length = places.length := by
  unfold cardsAt? at h
  induction places generalizing chosen with
  | nil =>
      obtain rfl := Option.some.inj h
      rfl
  | cons i rest ih =>
      rw [List.mapM_cons] at h
      obtain ⟨card, _, h⟩ := Option.bind_eq_some_iff.mp h
      obtain ⟨more, hmore, h⟩ := Option.bind_eq_some_iff.mp h
      obtain rfl := Option.some.inj h
      exact congrArg Nat.succ (ih hmore)

theorem mem_of_cardsAt? {cards chosen : List Card} {places : List Nat}
    (h : cardsAt? cards places = some chosen) : ∀ card ∈ chosen, card ∈ cards := by
  intro card hcard
  rw [cardsAt?_eq (lt_of_cardsAt? h)] at h
  obtain rfl := Option.some.inj h
  obtain ⟨i, _, hi⟩ := List.mem_filterMap.mp hcard
  exact List.mem_of_getElem? hi

namespace Session

theorem requirePhase_of_eq {s : Session} {expected : Phase} (h : s.phase = expected) :
    s.requirePhase expected = .ok () := if_pos h

theorem requirePhase_of_ne {s : Session} {expected : Phase} (h : s.phase ≠ expected) :
    s.requirePhase expected = .error (.wrongPhase expected s.phase) := if_neg h

/-! ## Choices from an offer -/

/-- The checks of a choice from the offer, one after the other. -/
theorem checkTraining_eq (s : Session) (picks : List Nat) :
    s.checkTraining picks =
      if s.phase = .training then
        match s.offer with
        | none => .error .noPendingOffer
        | some offer =>
          if picks.length = min (s.config.picks s.turn) offer.length then
            (checkSelection offer.length [] picks).map fun _ => offer
          else .error (.selectionCount (min (s.config.picks s.turn) offer.length) picks.length)
      else .error (.wrongPhase .training s.phase) := by
  unfold checkTraining
  by_cases hphase : s.phase = .training
  · rw [requirePhase_of_eq hphase, if_pos hphase]
    cases s.offer with
    | none => rfl
    | some offer =>
        dsimp only [bind, Except.bind]
        by_cases hcount : picks.length = min (s.config.picks s.turn) offer.length
        · rw [if_neg (not_not.mpr hcount), if_pos hcount]
          dsimp only [pure, Except.pure]
          cases checkSelection offer.length [] picks <;> rfl
        · rw [if_pos hcount, if_neg hcount]
          rfl
  · rw [requirePhase_of_ne hphase, if_neg hphase]
    rfl

theorem checkTraining_of_ne {s : Session} (hphase : s.phase ≠ .training) (picks : List Nat) :
    s.checkTraining picks = .error (.wrongPhase .training s.phase) := by
  rw [checkTraining_eq, if_neg hphase]

theorem checkTraining_error {s : Session} {picks : List Nat} {r : Refusal}
    (h : s.checkTraining picks = .error r) (turn : UInt8) : r ≠ .turnOutOfRange turn := by
  rw [checkTraining_eq] at h
  split at h
  · split at h
    · rw [← Except.error.inj h]
      simp
    · split at h
      · cases hsel : checkSelection _ [] picks with
        | ok =>
            rw [hsel] at h
            simp [Except.map] at h
        | error refusal =>
            rw [hsel] at h
            obtain ⟨i, _, rfl | rfl⟩ := checkSelection_error hsel <;>
              · rw [← Except.error.inj h]
                simp
      · rw [← Except.error.inj h]
        simp
  · rw [← Except.error.inj h]
    simp

/-- A choice from the offer passes exactly if all checks are met, and the offer is given. -/
theorem checkTraining_eq_ok_iff {s : Session} {picks : List Nat} {offer : List Card} :
    s.checkTraining picks = .ok offer ↔
      s.phase = .training ∧ s.offer = some offer ∧
        picks.length = min (s.config.picks s.turn) offer.length ∧
        checkSelection offer.length [] picks = .ok () := by
  constructor
  · intro h
    rw [checkTraining_eq] at h
    split at h
    · next hphase =>
        split at h
        · simp at h
        · next cards hoffer =>
            split at h
            · next hcount =>
                cases hsel : checkSelection cards.length [] picks with
                | error =>
                    rw [hsel] at h
                    simp [Except.map] at h
                | ok =>
                    rw [hsel] at h
                    obtain rfl : cards = offer := Except.ok.inj h
                    exact ⟨hphase, hoffer, hcount, hsel⟩
            · simp at h
    · simp at h
  · intro ⟨hphase, hoffer, hcount, hsel⟩
    rw [checkTraining_eq, if_pos hphase, hoffer]
    dsimp only
    rw [if_pos hcount, hsel]
    rfl

/-! ## Choices in a meeting -/

/-- The checks of a choice of cards to delete, one after the other. -/
theorem checkMeeting_eq {s : Session} {plan : TurnPlan} (hphase : s.phase = .meeting)
    (hplan : s.plan = .ok plan) (places : List Nat) :
    s.checkMeeting places =
      if plan.deleteQuota < places.length then
        .error (.deleteQuotaExceeded plan.deleteQuota places.length)
      else checkSelection s.player.deck.length [] places := by
  unfold checkMeeting
  rw [requirePhase_of_eq hphase, hplan]
  dsimp only [bind, Except.bind]
  by_cases hquota : plan.deleteQuota < places.length
  · rw [if_pos hquota, if_pos hquota]
    rfl
  · rw [if_neg hquota, if_neg hquota]

theorem checkMeeting_of_ne {s : Session} (hphase : s.phase ≠ .meeting) (places : List Nat) :
    s.checkMeeting places = .error (.wrongPhase .meeting s.phase) := by
  unfold checkMeeting
  rw [requirePhase_of_ne hphase]
  rfl

theorem checkMeeting_error {s : Session} {places : List Nat} {r : Refusal}
    (hturn : s.phase = .meeting → s.turn.toNat < turnCount)
    (h : s.checkMeeting places = .error r) (turn : UInt8) : r ≠ .turnOutOfRange turn := by
  by_cases hphase : s.phase = .meeting
  · obtain ⟨plan, hplan⟩ := exists_plan (hturn hphase)
    rw [checkMeeting_eq hphase hplan] at h
    split at h
    · rw [← Except.error.inj h]
      simp
    · obtain ⟨i, _, rfl | rfl⟩ := checkSelection_error h <;> simp
  · rw [checkMeeting_of_ne hphase] at h
    rw [← Except.error.inj h]
    simp

/-- A choice of cards to delete passes exactly if all checks are met. -/
theorem checkMeeting_eq_ok_iff {s : Session} {places : List Nat} :
    s.checkMeeting places = .ok () ↔
      s.phase = .meeting ∧ (∃ plan, s.plan = .ok plan ∧ places.length ≤ plan.deleteQuota) ∧
        checkSelection s.player.deck.length [] places = .ok () := by
  constructor
  · intro h
    by_cases hphase : s.phase = .meeting
    · refine ⟨hphase, ?_⟩
      cases hplan : s.plan with
      | error r =>
          unfold checkMeeting at h
          rw [requirePhase_of_eq hphase, hplan] at h
          simp [bind, Except.bind] at h
      | ok plan =>
          rw [checkMeeting_eq hphase hplan] at h
          split at h
          · simp at h
          · next hquota => exact ⟨⟨plan, rfl, Nat.not_lt.mp hquota⟩, h⟩
    · rw [checkMeeting_of_ne hphase] at h
      simp at h
  · intro ⟨hphase, ⟨plan, hplan, hquota⟩, hsel⟩
    rw [checkMeeting_eq hphase hplan, if_neg (Nat.not_lt.mpr hquota)]
    exact hsel

end Session

end CramSchool
