/-
  What moving on from a phase does.

  `Transition s t` lists the ways from one phase to the next, one constructor for each. A meeting
  ends in the training of the next turn or in the end of the game (`MeetingOver`); a turn
  without deletions passes through its meeting (`skip`). Two of the ways draw cards, and the
  machine has room for these; `demand` says for how many cards that is.

  `advance_cases`: on a turn of the calendar `advance` makes a transition, unless an offer is
  pending or the game is over. Then it is refused and nothing changes. If there is no room for the
  cards to be drawn, the program stops instead of the transition.
-/
import CramSchool.Proofs.Pile.Conserved
import CramSchool.Session.Basic

namespace CramSchool.Session

/-! ## Turns of the calendar -/

theorem plan_eq_ok_iff {s : Session} {plan : TurnPlan} :
    s.plan = .ok plan ↔ s.plan? = some plan := by
  unfold Session.plan
  cases s.plan? <;> simp

theorem exists_plan {s : Session} (h : s.turn.toNat < turnCount) : ∃ plan, s.plan = .ok plan := by
  obtain ⟨plan, hplan⟩ := Option.isSome_iff_exists.mp ((TurnPlan.isSome_ofTurn? s.turn).mpr h)
  exact ⟨plan, plan_eq_ok_iff.mpr hplan⟩

theorem plan?_eq {s : Session} {plan : TurnPlan} (h : s.plan = .ok plan) :
    s.plan? = some plan := plan_eq_ok_iff.mp h

/-- A turn before the last one counts up without running over. -/
theorem toNat_turn_succ {s : Session} (h : s.turn.toNat < turnCount) :
    (s.turn + 1).toNat = s.turn.toNat + 1 := by
  unfold turnCount at h
  rw [UInt8.toNat_add]
  show (s.turn.toNat + 1) % 256 = s.turn.toNat + 1
  omega

theorem succTurn_eq {turn : UInt8} (h : turn.toNat < turnCount) :
    succTurn turn = .ok (turn + 1) := by
  unfold succTurn
  unfold turnCount at h
  exact if_pos (by simp only [UInt8.size]; omega)

/-! ## Draws -/

/-- The cards served from a training pool, and the session without them in the pool. -/
def served (s : Session) (rarity : Rarity) (count : Nat) : List Card × Session :=
  let (cards, pools) := s.pools.serve s.catalog rarity count s.config.forced.training
  (cards, { s with pools })

/-- The number of cards served from the deck, and the session with them in the hand. -/
def dealt (s : Session) (count : Nat) : Nat × Session :=
  let (cards, left) := Pile.serve s.catalog count s.config.forced.hand s.player.deck
  (cards.length, { s with player := { s.player with deck := left, hand := s.player.hand ++ cards } })

theorem drawTraining_of_hasRoom {s : Session} {count : Nat} (h : s.machine.HasRoom count)
    (rarity : Rarity) : s.drawTraining rarity count = .ok (s.served rarity count) := by
  unfold drawTraining
  rw [Pools.draw_of_hasRoom _ _ _ _ h]
  rfl

theorem drawTraining_of_shortage {s : Session} {count : Nat} {shortage : Shortage}
    (h : s.machine.cardShortage? count = some shortage) (rarity : Rarity) :
    s.drawTraining rarity count = .error (.noRoom shortage) := by
  unfold drawTraining
  rw [Pools.draw_of_shortage _ _ _ _ h]
  rfl

theorem drawHand_of_hasRoom {s : Session} {count : Nat} (h : s.machine.HasRoom count) :
    s.drawHand count = .ok (s.dealt count) := by
  unfold drawHand Player.drawHand
  rw [Pile.draw_of_hasRoom _ _ _ h]
  rfl

theorem drawHand_of_shortage {s : Session} {count : Nat} {shortage : Shortage}
    (h : s.machine.cardShortage? count = some shortage) :
    s.drawHand count = .error (.noRoom shortage) := by
  unfold drawHand Player.drawHand
  rw [Pile.draw_of_shortage _ _ _ h]
  rfl

/-! ## States after a move -/

/-- In training, with the offer of the turn drawn. -/
def offered (s : Session) (plan : TurnPlan) : Session :=
  let (cards, t) := s.served plan.trainingRarity (s.config.offerSize s.turn)
  { t with offer := some cards, phase := .training }

/-- In the action phase, with the deck shuffled. -/
def shuffled (s : Session) : Session :=
  let (player, rng) := s.player.shuffleDeck s.rng
  { s with phase := .action, player, rng }

/-- In the action phase, with the deck shuffled and the hand drawn. -/
def acting (s : Session) : Session := (s.shuffled.dealt s.config.handSize.toNat).2

/-- At the end of the game, with all cards in the deck. -/
def closed (s : Session) : Session :=
  { s with player := s.player.returnAll, turn := UInt8.ofNat turnCount, phase := .finished }

/-- On the next turn, with all cards in the deck. -/
def nextTurn (s : Session) : Session :=
  { s with player := s.player.returnAll, turn := s.turn + 1 }

/-- How a meeting ends. -/
inductive MeetingOver (s : Session) : Session → Prop
  | last (h : turnCount ≤ s.turn.toNat + 1) : MeetingOver s s.closed
  | next {plan : TurnPlan} (h : s.turn.toNat + 1 < turnCount) (hplan : s.nextTurn.plan = .ok plan)
      (hroom : s.machine.HasRoom (s.config.offerSize (s.turn + 1))) :
      MeetingOver s (s.nextTurn.offered plan)

/-- The ways from one phase to the next. -/
inductive Transition (s : Session) : Session → Prop
  | begin {plan : TurnPlan} (hphase : s.phase = .start) (hplan : s.plan = .ok plan)
      (hroom : s.machine.HasRoom (s.config.offerSize s.turn)) : Transition s (s.offered plan)
  | play (hphase : s.phase = .training) (hoffer : s.offer = none)
      (hroom : s.machine.HasRoom s.config.handSize.toNat) : Transition s s.acting
  | meet {plan : TurnPlan} (hphase : s.phase = .action) (hplan : s.plan = .ok plan)
      (hquota : plan.deleteQuota ≠ 0) : Transition s s.enterMeeting
  | skip {plan : TurnPlan} {t : Session} (hphase : s.phase = .action) (hplan : s.plan = .ok plan)
      (hquota : plan.deleteQuota = 0) (hover : MeetingOver s.enterMeeting t) : Transition s t
  | dismiss {t : Session} (hphase : s.phase = .meeting) (hover : MeetingOver s t) : Transition s t

/-! ## What a move draws -/

/-- Number of cards that are to be drawn when the meeting is over. -/
def meetingDemand (s : Session) : Nat :=
  if s.turn.toNat + 1 < turnCount then s.config.offerSize (s.turn + 1) else 0

/-- Number of cards that are to be drawn on the way to the next phase: an offer or a hand. -/
def demand (s : Session) : Nat :=
  match s.phase with
  | .start => s.config.offerSize s.turn
  | .training => s.config.handSize.toNat
  | .action =>
    match s.plan? with
    | some plan => if plan.deleteQuota = 0 then s.meetingDemand else 0
    | none => 0
  | .meeting => s.meetingDemand
  | .finished => 0

theorem demand_of_start {s : Session} (h : s.phase = .start) :
    s.demand = s.config.offerSize s.turn := by
  unfold demand
  rw [h]

theorem demand_of_training {s : Session} (h : s.phase = .training) :
    s.demand = s.config.handSize.toNat := by
  unfold demand
  rw [h]

theorem demand_of_meeting {s : Session} (h : s.phase = .meeting) :
    s.demand = s.meetingDemand := by
  unfold demand
  rw [h]

theorem demand_of_action {s : Session} {plan : TurnPlan} (hphase : s.phase = .action)
    (hplan : s.plan = .ok plan) :
    s.demand = if plan.deleteQuota = 0 then s.meetingDemand else 0 := by
  unfold demand
  rw [hphase, plan?_eq hplan]

theorem MeetingOver.hasRoom {s t : Session} (h : MeetingOver s t) :
    s.machine.HasRoom s.meetingDemand := by
  unfold meetingDemand
  cases h with
  | last hlast =>
      rw [if_neg (by omega)]
      exact s.machine.hasRoom_zero
  | next hnext hplan hroom =>
      rw [if_pos hnext]
      exact hroom

/-- For the cards that a transition draws there is room. -/
theorem Transition.hasRoom {s t : Session} (h : Transition s t) : s.machine.HasRoom s.demand := by
  cases h with
  | begin hphase hplan hroom =>
      rw [demand_of_start hphase]
      exact hroom
  | play hphase hoffer hroom =>
      rw [demand_of_training hphase]
      exact hroom
  | meet hphase hplan hquota =>
      rw [demand_of_action hphase hplan, if_neg hquota]
      exact s.machine.hasRoom_zero
  | skip hphase hplan hquota hover =>
      rw [demand_of_action hphase hplan, if_pos hquota]
      exact hover.hasRoom
  | dismiss hphase hover =>
      rw [demand_of_meeting hphase]
      exact hover.hasRoom

/-! ## Moving on -/

/-- The move makes a transition from `s` and gives the answer, or there is no room for the cards
    that are to be drawn on the way, and it stops the program. -/
def Leads {α : Type} (s : Session) (answer : Session → α) (move : Except Stop (Moved α)) : Prop :=
  (∃ t, Transition s t ∧ move = .ok (.ok (answer t), t)) ∨
    ∃ shortage, s.machine.cardShortage? s.demand = some shortage ∧ move = .error (.noRoom shortage)

/-- Such a move is not refused. -/
theorem Leads.ne_error {α : Type} {s t : Session} {answer : Session → α}
    {move : Except Stop (Moved α)} {r : Refusal} (h : Leads s answer move) :
    move ≠ .ok (.error r, t) := by
  obtain ⟨_, _, rfl⟩ | ⟨_, _, rfl⟩ := h <;> simp

/-- Such a move stays one if its answer is worked on further, and that cannot fail. -/
theorem Leads.bind {α β : Type} {s : Session} {answer : Session → α} {answer' : Session → β}
    {move : Except Stop (Moved α)} {next : Moved α → Except Stop (Moved β)} (h : Leads s answer move)
    (hnext : ∀ t, next (.ok (answer t), t) = .ok (.ok (answer' t), t)) :
    Leads s answer' (move.bind next) := by
  obtain ⟨t, ht, rfl⟩ | ⟨shortage, hshort, rfl⟩ := h
  · exact .inl ⟨t, ht, hnext t⟩
  · exact .inr ⟨shortage, hshort, rfl⟩

theorem enterTraining_of_hasRoom {s : Session} {plan : TurnPlan} (h : s.plan = .ok plan)
    (hroom : s.machine.HasRoom (s.config.offerSize s.turn)) :
    s.enterTraining = .ok (.ok (), s.offered plan) := by
  unfold enterTraining
  rw [h]
  dsimp only
  rw [drawTraining_of_hasRoom hroom]
  rfl

theorem enterTraining_of_shortage {s : Session} {plan : TurnPlan} {shortage : Shortage}
    (h : s.plan = .ok plan)
    (hshort : s.machine.cardShortage? (s.config.offerSize s.turn) = some shortage) :
    s.enterTraining = .error (.noRoom shortage) := by
  unfold enterTraining
  rw [h]
  dsimp only
  rw [drawTraining_of_shortage hshort]
  rfl

/-- Entering training from `u` is a move from `s`, if it is a transition from there where there is
    room. -/
theorem leads_enterTraining {s u : Session} {plan : TurnPlan} (hplan : u.plan = .ok plan)
    (hmachine : s.machine = u.machine) (hdemand : s.demand = u.config.offerSize u.turn)
    (h : u.machine.HasRoom (u.config.offerSize u.turn) → Transition s (u.offered plan)) :
    Leads s (fun _ => ()) u.enterTraining := by
  cases hroom : u.machine.cardShortage? (u.config.offerSize u.turn) with
  | none => exact .inl ⟨_, h hroom, enterTraining_of_hasRoom hplan hroom⟩
  | some shortage =>
      refine .inr ⟨shortage, ?_, enterTraining_of_shortage hplan hroom⟩
      rw [hmachine, hdemand]
      exact hroom

theorem leads_enterAction {s : Session} (hphase : s.phase = .training) (hoffer : s.offer = none) :
    Leads s (fun _ => ()) s.enterAction := by
  have hdemand := demand_of_training hphase
  have henter : s.enterAction =
      (s.shuffled.drawHand s.config.handSize.toNat).bind fun x => .ok (.ok (), x.2) := rfl
  rw [henter]
  cases hroom : s.machine.cardShortage? s.config.handSize.toNat with
  | none =>
      refine .inl ⟨s.acting, .play hphase hoffer hroom, ?_⟩
      rw [drawHand_of_hasRoom (s := s.shuffled) hroom]
      rfl
  | some shortage =>
      refine .inr ⟨shortage, hdemand ▸ hroom, ?_⟩
      rw [drawHand_of_shortage (s := s.shuffled) hroom]
      rfl

/-- Leaving the meeting of `u` is a move from `s`, if every end of that meeting is a transition from
    there. -/
theorem leads_leaveMeeting {s u : Session} (hturn : u.turn.toNat < turnCount)
    (hmachine : s.machine = u.machine) (hdemand : s.demand = u.meetingDemand)
    (h : ∀ t, MeetingOver u t → Transition s t) : Leads s (fun _ => ()) u.leaveMeeting := by
  unfold leaveMeeting
  dsimp only
  rw [succTurn_eq hturn]
  dsimp only [bind, Except.bind]
  rw [toNat_turn_succ hturn]
  by_cases hlast : turnCount ≤ u.turn.toNat + 1
  · rw [if_pos hlast]
    exact .inl ⟨u.closed, h _ (.last hlast), rfl⟩
  · have hnext : u.turn.toNat + 1 < turnCount := Nat.not_le.mp hlast
    have hcalendar : u.nextTurn.turn.toNat < turnCount := by
      rw [← toNat_turn_succ hturn] at hnext
      exact hnext
    obtain ⟨plan, hplan⟩ := exists_plan hcalendar
    unfold meetingDemand at hdemand
    rw [if_pos hnext] at hdemand
    rw [if_neg hlast]
    exact leads_enterTraining (u := u.nextTurn) hplan hmachine hdemand fun hroom =>
      h _ (.next hnext hplan hroom)

theorem leads_leaveAction {s : Session} {plan : TurnPlan} (h : s.turn.toNat < turnCount)
    (hphase : s.phase = .action) (hplan : s.plan = .ok plan) :
    Leads s (fun _ => ()) s.leaveAction := by
  have hdemand := demand_of_action hphase hplan
  unfold leaveAction
  rw [hplan]
  dsimp only
  by_cases hquota : plan.deleteQuota = 0
  · rw [if_pos hquota] at hdemand ⊢
    exact leads_leaveMeeting (u := s.enterMeeting) h rfl hdemand fun t ht =>
      .skip hphase hplan hquota ht
  · rw [if_neg hquota]
    exact .inl ⟨_, .meet hphase hplan hquota, rfl⟩

theorem leads_leavePhase {s : Session} (h : s.turn.toNat < turnCount) (hphase : s.phase ≠ .finished)
    (hoffer : s.phase = .training → s.offer = none) : Leads s (fun _ => ()) s.leavePhase := by
  unfold leavePhase
  obtain ⟨plan, hplan⟩ := exists_plan h
  split
  · next hp =>
      exact leads_enterTraining hplan rfl (demand_of_start hp) fun hroom => .begin hp hplan hroom
  · next hp =>
      rw [hoffer hp]
      exact leads_enterAction hp (hoffer hp)
  · next hp => exact leads_leaveAction h hp hplan
  · next hp => exact leads_leaveMeeting h rfl (demand_of_meeting hp) fun t ht => .dismiss hp ht
  · next hp => exact absurd hp hphase

/-- Without a pending offer the next phase is reached, and the answer is that phase. -/
theorem leads_advance {s : Session} (h : s.turn.toNat < turnCount) (hphase : s.phase ≠ .finished)
    (hoffer : s.phase = .training → s.offer = none) : Leads s Session.phase s.advance := by
  unfold advance
  exact (leads_leavePhase h hphase hoffer).bind fun _ => rfl

theorem advance_of_offer {s : Session} {cards : List Card} (hphase : s.phase = .training)
    (hoffer : s.offer = some cards) : s.advance = .ok (.error .offerPending, s) := by
  unfold advance leavePhase
  rw [hphase]
  dsimp only
  rw [hoffer]
  rfl

theorem advance_of_finished {s : Session} (hphase : s.phase = .finished) :
    s.advance = .ok (.error .gameOver, s) := by
  unfold advance leavePhase
  rw [hphase]
  rfl

/-- All that `advance` can do on a turn of the calendar or at the end of the game. -/
theorem advance_cases {s : Session}
    (h : s.turn.toNat < turnCount ∨ s.turn.toNat = turnCount ∧ s.phase = .finished) :
    Leads s Session.phase s.advance ∨
    (∃ cards, s.phase = .training ∧ s.offer = some cards ∧
      s.advance = .ok (.error .offerPending, s)) ∨
    (s.phase = .finished ∧ s.advance = .ok (.error .gameOver, s)) := by
  by_cases hphase : s.phase = .finished
  · exact .inr (.inr ⟨hphase, advance_of_finished hphase⟩)
  · have hturn : s.turn.toNat < turnCount := h.resolve_right fun he => hphase he.2
    by_cases hpending : s.phase = .training ∧ s.offer.isSome
    · obtain ⟨htraining, hsome⟩ := hpending
      obtain ⟨cards, hcards⟩ := Option.isSome_iff_exists.mp hsome
      exact .inr (.inl ⟨cards, htraining, hcards, advance_of_offer htraining hcards⟩)
    · refine .inl (leads_advance hturn hphase fun htraining => ?_)
      exact Option.not_isSome_iff_eq_none.mp fun hsome => hpending ⟨htraining, hsome⟩

end CramSchool.Session
