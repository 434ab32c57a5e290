/-
  Why operations are refused.

  `Refused s op r` lists the reasons, one constructor for each: what is wrong with the session or
  with the choice when the operation `op` is refused with `r`. Numbers and names in a refusal
  are those of the session and of the choice. Checks are made in a fixed order, the phase first,
  so a reason that is found later says as well that the earlier checks were passed.

  In a sound session an operation is refused for exactly these reasons (`step_eq_refused_iff`).
-/
import CramSchool.Proofs.Session.Step

namespace CramSchool

/-- The phase an operation belongs to; none if it can be asked for in every phase. -/
def Operation.phase? : Operation → Option Phase
  | .startGame => some .start
  | .confirmTraining _ => some .training
  | .placeCard _ _ | .unplace _ | .clearPlaced | .resolvePlaced | .confirmActions => some .action
  | .confirmMeeting _ => some .meeting
  | _ => none

/-- A move whose reply is a refusal was refused. -/
theorem Moved.eq_error_of_reply {α : Type} {moved : Moved α} {r : Refusal} (answer : α → Reply)
    (hanswer : ∀ a, answer a ≠ .refused r) (h : (moved.reply answer).1 = .refused r) :
    moved.1 = .error r := by
  obtain ⟨refusal | a, s⟩ := moved
  · exact congrArg _ (Reply.refused.inj h)
  · exact absurd h (hanswer a)

namespace Session

/-- An operation that may stop the program is refused exactly if its move is. -/
theorem settle_eq_refused_iff {α : Type} {s : Session} {move : Except Stop (Moved α)} {r : Refusal}
    (answer : α → Reply) (hanswer : ∀ a, answer a ≠ .refused r) :
    (s.settle do return (← move).reply answer).1 = .refused r ↔
      ∃ t, move = .ok (.error r, t) := by
  constructor
  · intro h
    cases move with
    | error reason => cases h
    | ok moved =>
        obtain ⟨refusal | a, t⟩ := moved
        · obtain rfl : refusal = r := Reply.refused.inj h
          exact ⟨t, rfl⟩
        · exact absurd h (hanswer a)
  · intro ⟨t, ht⟩
    rw [ht]
    rfl

/-- The reasons for which an operation is refused. -/
inductive Refused (s : Session) : Operation → Refusal → Prop
  | wrongPhase {op : Operation} {expected : Phase} (hop : op.phase? = some expected)
      (h : s.phase ≠ expected) : Refused s op (.wrongPhase expected s.phase)
  | offerPending {offer : List Card} (hphase : s.phase = .training)
      (hoffer : s.offer = some offer) : Refused s .advance .offerPending
  | gameOver (hphase : s.phase = .finished) : Refused s .advance .gameOver
  | noOffer {picks : List Nat} (hphase : s.phase = .training) (hoffer : s.offer = none) :
      Refused s (.confirmTraining picks) .noPendingOffer
  | pickCount {picks : List Nat} {offer : List Card} (hphase : s.phase = .training)
      (hoffer : s.offer = some offer)
      (hcount : picks.length ≠ min (s.config.picks s.turn) offer.length) :
      Refused s (.confirmTraining picks)
        (.selectionCount (min (s.config.picks s.turn) offer.length) picks.length)
  | picks {picks : List Nat} {offer : List Card} {r : Refusal} (hphase : s.phase = .training)
      (hoffer : s.offer = some offer)
      (hcount : picks.length = min (s.config.picks s.turn) offer.length)
      (h : checkSelection offer.length [] picks = .error r) :
      Refused s (.confirmTraining picks) r
  | quota {places : List Nat} {plan : TurnPlan} (hphase : s.phase = .meeting)
      (hplan : s.plan = .ok plan) (hquota : plan.deleteQuota < places.length) :
      Refused s (.confirmMeeting places) (.deleteQuotaExceeded plan.deleteQuota places.length)
  | places {places : List Nat} {plan : TurnPlan} {r : Refusal} (hphase : s.phase = .meeting)
      (hplan : s.plan = .ok plan) (hquota : ¬plan.deleteQuota < places.length)
      (h : checkSelection s.player.deck.length [] places = .error r) :
      Refused s (.confirmMeeting places) r
  | slotOccupied {i : Nat} {role : Role} (hphase : s.phase = .action)
      (hslot : (s.player.placed.get role).isSome) :
      Refused s (.placeCard i role) (.slotOccupied role)
  | handIndex {i : Nat} {role : Role} (hphase : s.phase = .action)
      (hempty : ¬(s.player.placed.get role).isSome) (hrange : s.player.hand.length ≤ i) :
      Refused s (.placeCard i role) (.handIndex i s.player.hand.length)

/-- An operation asked for in the wrong phase. -/
theorem Refused.of_phase {α : Type} {s : Session} {op : Operation} {expected : Phase} {r : Refusal}
    (hop : op.phase? = some expected) (hphase : s.phase ≠ expected)
    (h : (.error (.wrongPhase expected s.phase) : Except Refusal α) = .error r) :
    Refused s op r := by
  obtain rfl := Except.error.inj h
  exact .wrongPhase hop hphase

/-! ## Checks of choices -/

theorem refused_of_checkTraining {s : Session} {picks : List Nat} {r : Refusal}
    (h : s.checkTraining picks = .error r) : Refused s (.confirmTraining picks) r := by
  rw [checkTraining_eq] at h
  split at h
  · next hphase =>
      split at h
      · next hoffer =>
          obtain rfl := Except.error.inj h
          exact .noOffer hphase hoffer
      · next offer hoffer =>
          split at h
          · next hcount =>
              cases hselection : checkSelection offer.length [] picks with
              | ok =>
                  rw [hselection] at h
                  simp [Except.map] at h
              | error refusal =>
                  rw [hselection] at h
                  obtain rfl := Except.error.inj h
                  exact .picks hphase hoffer hcount hselection
          · next hcount =>
              obtain rfl := Except.error.inj h
              exact .pickCount hphase hoffer hcount
  · next hphase => exact .of_phase rfl hphase h

theorem refused_of_checkMeeting {s : Session} (hs : s.Sound) {places : List Nat} {r : Refusal}
    (h : s.checkMeeting places = .error r) : Refused s (.confirmMeeting places) r := by
  by_cases hphase : s.phase = .meeting
  · obtain ⟨plan, hplan⟩ := exists_plan (hs.turn_lt (by simp [hphase]))
    rw [checkMeeting_eq hphase hplan] at h
    split at h
    · next hquota =>
        obtain rfl := Except.error.inj h
        exact .quota hphase hplan hquota
    · next hquota => exact .places hphase hplan hquota h
  · rw [checkMeeting_of_ne hphase] at h
    exact .of_phase rfl hphase h

/-! ## Operations -/

theorem refused_startGame {s t : Session} (hs : s.Sound) {r : Refusal}
    (h : s.startGame = .ok (.error r, t)) : Refused s .startGame r := by
  by_cases hphase : s.phase = .start
  · exact absurd h (leads_startGame hs hphase).ne_error
  · unfold startGame at h
    rw [requirePhase_of_ne hphase] at h
    exact .of_phase rfl hphase (congrArg Prod.fst (Except.ok.inj h))

theorem refused_advance {s t : Session} (hs : s.Sound) {r : Refusal}
    (h : s.advance = .ok (.error r, t)) : Refused s .advance r := by
  obtain hleads | ⟨offer, hphase, hoffer, heq⟩ | ⟨hphase, heq⟩ := advance_cases hs.turn
  · exact absurd h hleads.ne_error
  · rw [heq] at h
    obtain rfl := Except.error.inj (congrArg Prod.fst (Except.ok.inj h))
    exact .offerPending hphase hoffer
  · rw [heq] at h
    obtain rfl := Except.error.inj (congrArg Prod.fst (Except.ok.inj h))
    exact .gameOver hphase

theorem refused_confirmTraining {s t : Session} (hs : s.Sound) {picks : List Nat} {r : Refusal}
    (h : s.confirmTraining picks = .ok (.error r, t)) : Refused s (.confirmTraining picks) r := by
  cases hcheck : s.checkTraining picks with
  | error refusal =>
      unfold confirmTraining at h
      rw [hcheck] at h
      obtain rfl := Except.error.inj (congrArg Prod.fst (Except.ok.inj h))
      exact refused_of_checkTraining hcheck
  | ok offer =>
      obtain ⟨_, _, hleads⟩ := leads_confirmTraining hs hcheck
      exact absurd h hleads.ne_error

theorem refused_placeCard {s : Session} {i : Nat} {role : Role} {r : Refusal}
    (h : (s.placeCard i role).1 = .error r) : Refused s (.placeCard i role) r := by
  unfold placeCard at h
  by_cases hphase : s.phase = .action
  · rw [requirePhase_of_eq hphase] at h
    dsimp only at h
    split at h
    · next hslot =>
        obtain rfl := Except.error.inj h
        exact .slotOccupied hphase hslot
    · next hslot =>
        split at h
        · next heq =>
            obtain rfl := Except.error.inj h
            exact .handIndex hphase hslot (List.getElem?_eq_none_iff.mp (Prod.mk.inj heq).1)
        · exact nomatch h
  · rw [requirePhase_of_ne hphase] at h
    exact .of_phase rfl hphase h

theorem refused_unplace {s : Session} {role : Role} {r : Refusal}
    (h : (s.unplace role).1 = .error r) : Refused s (.unplace role) r := by
  unfold unplace at h
  by_cases hphase : s.phase = .action
  · rw [requirePhase_of_eq hphase] at h
    dsimp only at h
    split at h <;> exact nomatch h
  · rw [requirePhase_of_ne hphase] at h
    exact .of_phase rfl hphase h

theorem refused_clearPlaced {s : Session} {r : Refusal} (h : s.clearPlaced.1 = .error r) :
    Refused s .clearPlaced r := by
  unfold clearPlaced at h
  by_cases hphase : s.phase = .action
  · rw [requirePhase_of_eq hphase] at h
    exact nomatch h
  · rw [requirePhase_of_ne hphase] at h
    exact .of_phase rfl hphase h

theorem refused_resolvePlaced {s : Session} (hs : s.Sound) {r : Refusal}
    (h : s.resolvePlaced.1 = .error r) : Refused s .resolvePlaced r := by
  by_cases hphase : s.phase = .action
  · obtain ⟨plan, hplan⟩ := exists_plan (hs.turn_lt (by simp [hphase]))
    rw [resolvePlaced_eq hphase hplan] at h
    exact nomatch h
  · rw [resolvePlaced_of_ne hphase] at h
    exact .of_phase rfl hphase h

theorem refused_confirmActions {s t : Session} (hs : s.Sound) {r : Refusal}
    (h : s.confirmActions = .ok (.error r, t)) : Refused s .confirmActions r := by
  by_cases hphase : s.phase = .action
  · obtain ⟨plan, hplan⟩ := exists_plan (hs.turn_lt (by simp [hphase]))
    exact absurd h (leads_confirmActions hs hphase hplan).ne_error
  · unfold confirmActions at h
    rw [resolvePlaced_of_ne hphase] at h
    exact .of_phase rfl hphase (congrArg Prod.fst (Except.ok.inj h))

theorem refused_confirmMeeting {s t : Session} (hs : s.Sound) {places : List Nat} {r : Refusal}
    (h : s.confirmMeeting places = .ok (.error r, t)) : Refused s (.confirmMeeting places) r := by
  cases hcheck : s.checkMeeting places with
  | error refusal =>
      unfold confirmMeeting at h
      rw [hcheck] at h
      obtain rfl := Except.error.inj (congrArg Prod.fst (Except.ok.inj h))
      exact refused_of_checkMeeting hs hcheck
  | ok => exact absurd h (leads_confirmMeeting hs hcheck).ne_error

/-! ## Every refusal has its reason -/

/-- An operation on a sound session is refused for one of the reasons listed. -/
theorem refused_step {s : Session} (hs : s.Sound) {op : Operation} {r : Refusal}
    (h : (s.step op).1 = .refused r) : Refused s op r := by
  cases op with
  | startGame =>
      obtain ⟨_, heq⟩ := (settle_eq_refused_iff .cards fun _ => Reply.noConfusion).mp h
      exact refused_startGame hs heq
  | advance =>
      obtain ⟨_, heq⟩ := (settle_eq_refused_iff .phase fun _ => Reply.noConfusion).mp h
      exact refused_advance hs heq
  | confirmTraining picks =>
      obtain ⟨_, heq⟩ := (settle_eq_refused_iff .phase fun _ => Reply.noConfusion).mp h
      exact refused_confirmTraining hs heq
  | placeCard i role => exact refused_placeCard (Moved.eq_error_of_reply .preview nofun h)
  | unplace role => exact refused_unplace (Moved.eq_error_of_reply .moved nofun h)
  | clearPlaced => exact refused_clearPlaced (Moved.eq_error_of_reply .count nofun h)
  | resolvePlaced => exact refused_resolvePlaced hs (Moved.eq_error_of_reply .resolutions nofun h)
  | confirmActions =>
      obtain ⟨_, heq⟩ := (settle_eq_refused_iff .resolutions fun _ => Reply.noConfusion).mp h
      exact refused_confirmActions hs heq
  | confirmMeeting places =>
      obtain ⟨_, heq⟩ := (settle_eq_refused_iff .phase fun _ => Reply.noConfusion).mp h
      exact refused_confirmMeeting hs heq
  | drawTraining rarity count =>
      rw [step] at h
      cases hdraw : s.drawTraining rarity count <;>
        · rw [hdraw] at h
          cases h
  | drawHand count =>
      rw [step] at h
      cases hdraw : s.drawHand count <;>
        · rw [hdraw] at h
          cases h
  | _ => cases h

/-! ## Every reason leads to its refusal -/

theorem reply_of_checkTraining {s : Session} {picks : List Nat} {r : Refusal}
    (h : s.checkTraining picks = .error r) :
    (s.step (.confirmTraining picks)).1 = .refused r := by
  refine (settle_eq_refused_iff .phase fun _ => Reply.noConfusion).mpr ⟨s, ?_⟩
  unfold confirmTraining
  rw [h]

theorem reply_of_checkMeeting {s : Session} {places : List Nat} {r : Refusal}
    (h : s.checkMeeting places = .error r) :
    (s.step (.confirmMeeting places)).1 = .refused r := by
  refine (settle_eq_refused_iff .phase fun _ => Reply.noConfusion).mpr ⟨s, ?_⟩
  unfold confirmMeeting
  rw [h]

theorem reply_of_wrongPhase {s : Session} {op : Operation} {expected : Phase}
    (hop : op.phase? = some expected) (hphase : s.phase ≠ expected) :
    (s.step op).1 = .refused (.wrongPhase expected s.phase) := by
  cases op with
  | startGame =>
      obtain rfl := Option.some.inj hop
      refine (settle_eq_refused_iff .cards fun _ => Reply.noConfusion).mpr ⟨s, ?_⟩
      unfold startGame
      rw [requirePhase_of_ne hphase]
  | confirmTraining picks =>
      obtain rfl := Option.some.inj hop
      exact reply_of_checkTraining (checkTraining_of_ne hphase picks)
  | placeCard i role =>
      obtain rfl := Option.some.inj hop
      simp only [step, placeCard, requirePhase_of_ne hphase, Moved.reply]
  | unplace role =>
      obtain rfl := Option.some.inj hop
      simp only [step, unplace, requirePhase_of_ne hphase, Moved.reply]
  | clearPlaced =>
      obtain rfl := Option.some.inj hop
      simp only [step, clearPlaced, requirePhase_of_ne hphase, Moved.reply]
  | resolvePlaced =>
      obtain rfl := Option.some.inj hop
      simp only [step, resolvePlaced_of_ne hphase, Moved.reply]
  | confirmActions =>
      obtain rfl := Option.some.inj hop
      refine (settle_eq_refused_iff .resolutions fun _ => Reply.noConfusion).mpr ⟨s, ?_⟩
      unfold confirmActions
      rw [resolvePlaced_of_ne hphase]
  | confirmMeeting places =>
      obtain rfl := Option.some.inj hop
      exact reply_of_checkMeeting (checkMeeting_of_ne hphase places)
  | _ => cases hop

theorem Refused.reply {s : Session} {op : Operation} {r : Refusal} (h : Refused s op r) :
    (s.step op).1 = .refused r := by
  cases h with
  | wrongPhase hop hphase => exact reply_of_wrongPhase hop hphase
  | offerPending hphase hoffer =>
      exact (settle_eq_refused_iff .phase fun _ => Reply.noConfusion).mpr
        ⟨s, advance_of_offer hphase hoffer⟩
  | gameOver hphase =>
      exact (settle_eq_refused_iff .phase fun _ => Reply.noConfusion).mpr
        ⟨s, advance_of_finished hphase⟩
  | noOffer hphase hoffer =>
      refine reply_of_checkTraining ?_
      rw [checkTraining_eq, if_pos hphase, hoffer]
  | pickCount hphase hoffer hcount =>
      refine reply_of_checkTraining ?_
      rw [checkTraining_eq, if_pos hphase, hoffer]
      exact if_neg hcount
  | picks hphase hoffer hcount hselection =>
      refine reply_of_checkTraining ?_
      rw [checkTraining_eq, if_pos hphase, hoffer]
      dsimp only
      rw [if_pos hcount, hselection]
      rfl
  | quota hphase hplan hquota =>
      refine reply_of_checkMeeting ?_
      rw [checkMeeting_eq hphase hplan, if_pos hquota]
  | places hphase hplan hquota hselection =>
      refine reply_of_checkMeeting ?_
      rw [checkMeeting_eq hphase hplan, if_neg hquota]
      exact hselection
  | slotOccupied hphase hslot =>
      simp only [step, placeCard, requirePhase_of_eq hphase, if_pos hslot, Moved.reply]
  | @handIndex i role hphase hempty hrange =>
      have hnone : s.player.removeFromHand i = (none, (s.player.removeFromHand i).2) :=
        congrArg (Prod.mk · _) (List.getElem?_eq_none hrange)
      simp only [step, placeCard, requirePhase_of_eq hphase, if_neg hempty, Moved.reply]
      rw [hnone]

/-- An operation on a sound session is refused for exactly the reasons listed. -/
theorem step_eq_refused_iff {s : Session} (hs : s.Sound) {op : Operation} {r : Refusal} :
    (s.step op).1 = .refused r ↔ Refused s op r :=
  ⟨refused_step hs, Refused.reply⟩

end Session

end CramSchool
