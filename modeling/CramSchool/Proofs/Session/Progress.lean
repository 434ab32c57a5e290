/-
  A game moves forward and is never stuck.

  The stage of a session is its turn and its phase. `Stage.next?` is the table of phases: what
  comes after a stage. The meeting of a turn without deletions is left out.

  Every move that is carried out leads to the next stage of the table (`Carried.stage_moved`), and
  no other operation but a restart leads to another stage (`Carried.stage_kept`). `Stage.rank`
  rises along the table, so a run makes at most 25 moves.

  In every stage but the last one `forward` names a move that is carried out, as long as the
  machine has room for the cards that it draws (`movesOn_forward_iff`). Without it no move is
  carried out, since all moves of a phase draw the same number, and the game is stuck
  (`overbooked_is_stuck`). So each session can be played to its end if there is room for the
  offers and the hand of its settings (`Machine.Serves`).

  The last turn has no meeting, so a whole game leaves out one rank and has 24 moves.
  `Stage.passed` counts them. A stored session may stand in that meeting all the same, so what is
  counted is said of orderly sessions only.

  Main result: `game_moves_forward`.
-/
import CramSchool.Proofs.Session.Orderly

namespace CramSchool

/-! ## Stages -/

/-- How far a game has come: the turn and the phase. -/
structure Stage where
  turn : Nat
  phase : Phase
deriving DecidableEq

namespace Stage

/-- The stage after the meeting of a turn. -/
def afterMeeting (turn : Nat) : Stage :=
  if turn + 1 < turnCount then ⟨turn + 1, .training⟩ else ⟨turnCount, .finished⟩

/-- The stage after this one; none after the end. -/
def next? (g : Stage) : Option Stage :=
  match g.phase with
  | .start => some ⟨g.turn, .training⟩
  | .training => some ⟨g.turn, .action⟩
  | .action => calendar[g.turn]?.map fun plan =>
      if plan.deleteQuota = 0 then afterMeeting g.turn else ⟨g.turn, .meeting⟩
  | .meeting => some (afterMeeting g.turn)
  | .finished => none

/-- Rises from each stage to the next. -/
def rank (g : Stage) : Nat :=
  match g.phase with
  | .start => 3 * g.turn
  | .training => 3 * g.turn + 1
  | .action => 3 * g.turn + 2
  | .meeting => 3 * g.turn + 3
  | .finished => 25

/-- Number of moves from the start of a game to this stage. -/
def passed (g : Stage) : Nat := if g.phase = .finished then 24 else g.rank

theorem rank_le {g : Stage} (h : g.turn < turnCount ∨ g.phase = .finished) : g.rank ≤ 25 := by
  obtain ⟨turn, phase⟩ := g
  unfold turnCount at h
  cases phase <;> simp [rank] at h ⊢ <;> omega

end Stage

/-- The last turn is the one without deletions. -/
theorem deleteQuota_eq_zero_iff {turn : Nat} {plan : TurnPlan} (h : calendar[turn]? = some plan) :
    plan.deleteQuota = 0 ↔ turn + 1 = turnCount := by
  have hall : ∀ i : Fin calendar.length,
      (calendar.get i).deleteQuota = 0 ↔ i.val + 1 = turnCount := by decide
  obtain ⟨hlt, rfl⟩ := List.getElem?_eq_some_iff.mp h
  exact hall ⟨turn, hlt⟩

namespace Stage

theorem ne_finished_of_next {g g' : Stage} (h : g.next? = some g') : g.phase ≠ .finished := by
  intro hphase
  simp [next?, hphase] at h

/-- From a turn of the calendar the table leads up by one rank, or from the last turn to the
    end. -/
theorem next_cases {g g' : Stage} (h : g.next? = some g') (hturn : g.turn < turnCount) :
    (g'.phase ≠ .finished ∧ g'.rank = g.rank + 1) ∨
      (g'.phase = .finished ∧ g.turn + 1 = turnCount ∧
        (g.phase = .action ∨ g.phase = .meeting)) := by
  obtain ⟨turn, phase⟩ := g
  cases phase with
  | start =>
      obtain rfl := Option.some.inj h
      exact .inl ⟨Phase.noConfusion, rfl⟩
  | training =>
      obtain rfl := Option.some.inj h
      exact .inl ⟨Phase.noConfusion, rfl⟩
  | action =>
      obtain ⟨plan, hplan, rfl⟩ := Option.map_eq_some_iff.mp h
      by_cases hquota : plan.deleteQuota = 0
      · have hlast := (deleteQuota_eq_zero_iff hplan).mp hquota
        have hnext : ¬turn + 1 < turnCount := by
          simp only at hlast
          omega
        rw [if_pos hquota]
        unfold afterMeeting
        rw [if_neg hnext]
        exact .inr ⟨rfl, hlast, .inl rfl⟩
      · rw [if_neg hquota]
        exact .inl ⟨Phase.noConfusion, rfl⟩
  | meeting =>
      obtain rfl := Option.some.inj h
      simp only at hturn
      unfold afterMeeting
      by_cases hnext : turn + 1 < turnCount
      · rw [if_pos hnext]
        exact .inl ⟨Phase.noConfusion, rfl⟩
      · rw [if_neg hnext]
        exact .inr ⟨rfl, by simp only; omega, .inr rfl⟩
  | finished => exact nomatch h

theorem rank_lt {g g' : Stage} (h : g.next? = some g') (hturn : g.turn < turnCount) :
    g.rank < g'.rank := by
  obtain ⟨_, hrank⟩ | ⟨hend, hlast, hphase⟩ := next_cases h hturn
  · omega
  · unfold turnCount at hlast
    obtain hphase | hphase := hphase <;> simp only [rank, hphase, hend] <;> omega

/-- Each move of a game counts one, if meetings are not held on the last turn. -/
theorem passed_next {g g' : Stage} (h : g.next? = some g') (hturn : g.turn < turnCount)
    (hmeeting : g.phase = .meeting → g.turn + 1 < turnCount) : g'.passed = g.passed + 1 := by
  unfold passed
  rw [if_neg (ne_finished_of_next h)]
  obtain ⟨hphase, hrank⟩ | ⟨hend, hlast, haction | hphase⟩ := next_cases h hturn
  · rw [if_neg hphase, hrank]
  · rw [if_pos hend]
    unfold turnCount at hlast
    simp only [rank, haction]
    omega
  · have := hmeeting hphase
    omega

/-- If meetings are not held on the last turn, the end is 24 moves away from the start. -/
theorem finished_iff {g : Stage} (hturn : g.turn < turnCount ∨ g.phase = .finished)
    (hmeeting : g.phase = .meeting → g.turn + 1 < turnCount) :
    g.phase = .finished ↔ g.passed = 24 := by
  obtain ⟨turn, phase⟩ := g
  unfold turnCount at hturn hmeeting
  cases phase <;> simp [passed, rank] at hturn hmeeting ⊢ <;> omega

end Stage

/-! ## Moves -/

/-- The operations that can lead to another phase, restarts aside. -/
def Operation.isMove : Operation → Bool
  | .startGame | .advance | .confirmTraining _ | .confirmActions | .confirmMeeting _ => true
  | _ => false

/-- Whether an operation is carried out, neither refused nor stopped. -/
def Reply.isAnswer : Reply → Bool
  | .refused _ | .stopped _ => false
  | _ => true

/-- The machine has room for the offers and the hand of the settings. -/
structure Machine.Serves (m : Machine) (config : Config) : Prop where
  opening : m.HasRoom config.openingOffer.toNat
  training : m.HasRoom config.trainingOffer.toNat
  hand : m.HasRoom config.handSize.toNat

theorem Machine.Serves.hasRoom_offerSize {m : Machine} {config : Config} (h : m.Serves config)
    (turn : UInt8) : m.HasRoom (config.offerSize turn) := by
  unfold Config.offerSize
  split
  · exact h.opening
  · exact h.training

namespace Session

def stage (s : Session) : Stage := ⟨s.turn.toNat, s.phase⟩

/-- Whether the operation is a move and is carried out. -/
def movesOn (s : Session) (op : Operation) : Bool := op.isMove && (s.step op).1.isAnswer

/-- Number of moves that are carried out in a run. -/
def moveCount (s : Session) : List Operation → Nat
  | [] => 0
  | op :: rest => (if s.movesOn op then 1 else 0) + (s.step op).2.moveCount rest

/-- A move that makes the least choices: the first cards of an offer are picked, nothing is placed
    and nothing is deleted. -/
def forward (s : Session) : Operation :=
  match s.phase, s.offer with
  | .start, _ => .startGame
  | .training, some offer =>
    .confirmTraining (List.range (min (s.config.picks s.turn) offer.length))
  | .training, none => .advance
  | .action, _ => .confirmActions
  | .meeting, _ => .confirmMeeting []
  | .finished, _ => .advance

/-! ## What a move does to the stage -/

theorem MeetingOver.stage {s t : Session} (h : MeetingOver s t) :
    t.stage = .afterMeeting s.turn.toNat := by
  unfold Stage.afterMeeting
  cases h with
  | last hlast =>
      rw [if_neg (by omega)]
      rfl
  | next hnext hplan hroom =>
      rw [if_pos hnext]
      exact congrArg (Stage.mk · .training) (toNat_turn_succ (by omega))

theorem plan_eq_calendar {s : Session} {plan : TurnPlan} (h : s.plan = .ok plan) :
    calendar[s.turn.toNat]? = some plan := plan?_eq h

theorem Transition.stage {s t : Session} (h : Transition s t) : s.stage.next? = some t.stage := by
  unfold Stage.next?
  cases h with
  | begin hphase hplan hroom =>
      rw [show s.stage.phase = .start from hphase]
      rfl
  | play hphase hoffer hroom =>
      rw [show s.stage.phase = .training from hphase]
      rfl
  | meet hphase hplan hquota =>
      rw [show s.stage.phase = .action from hphase]
      dsimp only [Session.stage]
      rw [plan_eq_calendar hplan, Option.map_some, if_neg hquota]
      rfl
  | skip hphase hplan hquota hover =>
      rw [show s.stage.phase = .action from hphase]
      dsimp only [Session.stage]
      rw [plan_eq_calendar hplan, Option.map_some, if_pos hquota]
      exact congrArg some hover.stage.symm
  | dismiss hphase hover =>
      rw [show s.stage.phase = .meeting from hphase]
      exact congrArg some hover.stage.symm

/-- A move that is carried out leads to the next stage, and there is room for what it draws. -/
theorem Carried.stage_moved {s : Session} {op : Operation} {x : Reply × Session}
    (h : Carried s op x) (hmove : (op.isMove && x.1.isAnswer) = true) :
    s.stage.next? = some x.2.stage ∧ s.machine.HasRoom s.demand := by
  cases h with
  | refused hr => simp [Reply.isAnswer] at hmove
  | stopped hshort => simp [Reply.isAnswer] at hmove
  | startGame hphase ht => exact ⟨ht.stage, ht.hasRoom⟩
  | advance ht => exact ⟨ht.stage, ht.hasRoom⟩
  | confirmTraining hphase hoffer hcount hnodup hchosen ht => exact ⟨ht.stage, ht.hasRoom⟩
  | confirmActions hphase hplan ht => exact ⟨ht.stage, ht.hasRoom⟩
  | confirmMeeting hphase hplan hquota hnodup hdoomed ht => exact ⟨ht.stage, ht.hasRoom⟩
  | _ => exact nomatch hmove

/-- Whatever is not such a move leads nowhere, if it is no restart. -/
theorem Carried.stage_kept {s : Session} {op : Operation} {x : Reply × Session}
    (h : Carried s op x) (hop : op ≠ .restart) (hstay : (op.isMove && x.1.isAnswer) = false) :
    x.2.stage = s.stage := by
  cases h with
  | restart => exact absurd rfl hop
  | startGame hphase ht => exact nomatch hstay
  | advance ht => exact nomatch hstay
  | confirmTraining hphase hoffer hcount hnodup hchosen ht => exact nomatch hstay
  | confirmActions hphase hplan ht => exact nomatch hstay
  | confirmMeeting hphase hplan hquota hnodup hdoomed ht => exact nomatch hstay
  | _ => rfl

/-- An operation of a phase is carried out in that phase only. -/
theorem Carried.in_phase {s : Session} {op : Operation} {x : Reply × Session} (h : Carried s op x)
    (hreply : x.1.isAnswer = true) {phase : Phase} (hop : op.phase? = some phase) :
    s.phase = phase := by
  cases h with
  | refused hr => exact nomatch hreply
  | stopped hshort => exact nomatch hreply
  | startGame hphase | placeCard hphase | unplace hphase | unplaceEmpty hphase
  | clearPlaced hphase | resolvePlaced hphase | confirmActions hphase | confirmTraining hphase
  | confirmMeeting hphase => exact hphase.trans (Option.some.inj hop)
  | _ => exact nomatch hop

/-! ## The move forward -/

theorem hasRoom_meetingDemand {s : Session} (h : s.machine.Serves s.config) :
    s.machine.HasRoom s.meetingDemand := by
  unfold meetingDemand
  split
  · exact h.hasRoom_offerSize _
  · exact s.machine.hasRoom_zero

/-- Then there is room for what is drawn on the way to the next phase, whichever it is. -/
theorem hasRoom_demand {s : Session} (h : s.machine.Serves s.config) :
    s.machine.HasRoom s.demand := by
  unfold demand
  split
  · exact h.hasRoom_offerSize _
  · exact h.hand
  · split
    · split
      · exact hasRoom_meetingDemand h
      · exact s.machine.hasRoom_zero
    · exact s.machine.hasRoom_zero
  · exact hasRoom_meetingDemand h
  · exact s.machine.hasRoom_zero

theorem Leads.isAnswer_iff {α : Type} {u : Session} {answer : Session → α}
    {move : Except Stop (Moved α)} (h : Leads u answer move) (s : Session) {reply : α → Reply}
    (hreply : ∀ a, (reply a).isAnswer = true) :
    (s.settle do return (← move).reply reply).1.isAnswer = true ↔ u.machine.HasRoom u.demand := by
  obtain ⟨t, _, hroom, heq⟩ | ⟨shortage, hshort, heq⟩ := h.settle_cases s reply
  · rw [heq]
    exact iff_of_true (hreply _) hroom
  · rw [heq]
    exact iff_of_false Bool.false_ne_true (Machine.not_hasRoom_iff.mpr ⟨shortage, hshort⟩)

/-- Before the end the move forward is carried out exactly if there is room for what it draws. -/
theorem movesOn_forward_iff {s : Session} (h : s.Sound) (hphase : s.phase ≠ .finished) :
    s.movesOn s.forward ↔ s.machine.HasRoom s.demand := by
  unfold forward
  split
  · next hstart => exact (leads_startGame h hstart).isAnswer_iff s fun _ => rfl
  · next offer htraining hoffer =>
      have hselection : checkSelection offer.length []
          (List.range (min (s.config.picks s.turn) offer.length)) = .ok () := by
        refine checkSelection_nil_eq_ok_iff.mpr ⟨fun i hi => ?_, List.nodup_range⟩
        have := List.mem_range.mp hi
        omega
      obtain ⟨_, _, hleads⟩ := leads_confirmTraining h
        (checkTraining_eq_ok_iff.mpr ⟨htraining, hoffer, List.length_range, hselection⟩)
      exact hleads.isAnswer_iff s fun _ => rfl
  · next htraining hoffer =>
      exact (leads_advance (h.turn_lt hphase) hphase fun _ => hoffer).isAnswer_iff s fun _ => rfl
  · next haction =>
      obtain ⟨plan, hplan⟩ := exists_plan (h.turn_lt hphase)
      exact (leads_confirmActions h haction hplan).isAnswer_iff s fun _ => rfl
  · next hmeeting =>
      obtain ⟨plan, hplan⟩ := exists_plan (h.turn_lt hphase)
      have hcheck : s.checkMeeting [] = .ok () :=
        checkMeeting_eq_ok_iff.mpr ⟨hmeeting, ⟨plan, hplan, Nat.zero_le _⟩, rfl⟩
      exact (leads_confirmMeeting h hcheck).isAnswer_iff s fun _ => rfl
  · next hfinished => exact absurd hfinished hphase

/-! ## Steps -/

theorem ne_restart_of_movesOn {s : Session} {op : Operation} (h : s.movesOn op) :
    op ≠ .restart := by
  intro hop
  rw [hop] at h
  exact nomatch h

theorem stage_step {s : Session} (h : s.Sound) {op : Operation} (hmove : s.movesOn op) :
    s.stage.next? = some (s.step op).2.stage := ((carried_step h op).stage_moved hmove).1

theorem hasRoom_of_movesOn {s : Session} (h : s.Sound) {op : Operation} (hmove : s.movesOn op) :
    s.machine.HasRoom s.demand := ((carried_step h op).stage_moved hmove).2

theorem stage_step_of_not {s : Session} (h : s.Sound) {op : Operation} (hop : op ≠ .restart)
    (hmove : ¬s.movesOn op) : (s.step op).2.stage = s.stage :=
  (carried_step h op).stage_kept hop (Bool.eq_false_iff.mpr hmove)

/-- A session that moves on is on a turn of the calendar. -/
theorem turn_lt_of_movesOn {s : Session} (h : s.Sound) {op : Operation} (hmove : s.movesOn op) :
    s.turn.toNat < turnCount := h.turn_lt (Stage.ne_finished_of_next (stage_step h hmove))

theorem rank_step_lt {s : Session} (h : s.Sound) {op : Operation} (hmove : s.movesOn op) :
    s.stage.rank < (s.step op).2.stage.rank :=
  Stage.rank_lt (stage_step h hmove) (turn_lt_of_movesOn h hmove)

theorem Sound.rank_le {s : Session} (h : s.Sound) : s.stage.rank ≤ 25 :=
  Stage.rank_le (h.turn.imp_right And.right)

/-- The last turn has no meeting. -/
theorem Orderly.turn_succ_lt {s : Session} (h : s.Orderly) (hphase : s.phase = .meeting) :
    s.turn.toNat + 1 < turnCount := by
  have hturn := h.sound.turn_lt (by simp [hphase])
  obtain ⟨plan, hplan⟩ := exists_plan hturn
  have hlast := (deleteQuota_eq_zero_iff (plan_eq_calendar hplan)).not.mp
    (h.meeting hphase plan hplan)
  omega

theorem passed_step {s : Session} (h : s.Orderly) {op : Operation} (hmove : s.movesOn op) :
    (s.step op).2.stage.passed = s.stage.passed + 1 :=
  Stage.passed_next (stage_step h.sound hmove) (turn_lt_of_movesOn h.sound hmove) h.turn_succ_lt

/-- An orderly game has ended when 24 moves are made. -/
theorem Orderly.finished_iff {s : Session} (h : s.Orderly) :
    s.phase = .finished ↔ s.stage.passed = 24 :=
  Stage.finished_iff (g := s.stage) (h.sound.turn.imp_right And.right) h.turn_succ_lt

/-! ## Runs -/

/-- Every move of a run raises the rank. -/
theorem rank_run {s : Session} (h : s.Sound) {ops : List Operation} (hops : .restart ∉ ops) :
    s.stage.rank + s.moveCount ops ≤ (s.run ops).2.stage.rank := by
  induction ops generalizing s with
  | nil => exact Nat.le_refl _
  | cons op ops ih =>
      obtain ⟨hop, hrest⟩ := not_or.mp (List.mem_cons.not.mp hops)
      have hrun := ih (settles_step h op).sound hrest
      show s.stage.rank + s.moveCount (op :: ops) ≤ ((s.step op).2.run ops).2.stage.rank
      unfold moveCount
      by_cases hmove : s.movesOn op
      · have hlt := rank_step_lt h hmove
        rw [if_pos hmove]
        omega
      · rw [if_neg hmove, Nat.zero_add, ← stage_step_of_not h (Ne.symm hop) hmove]
        exact hrun

/-- In an orderly session every move of a run counts one. -/
theorem passed_run {s : Session} (h : s.Orderly) {ops : List Operation} (hops : .restart ∉ ops) :
    (s.run ops).2.stage.passed = s.stage.passed + s.moveCount ops := by
  induction ops generalizing s with
  | nil => rfl
  | cons op ops ih =>
      obtain ⟨hop, hrest⟩ := not_or.mp (List.mem_cons.not.mp hops)
      have hrun := ih (orderly_step h op) hrest
      show ((s.step op).2.run ops).2.stage.passed = s.stage.passed + s.moveCount (op :: ops)
      unfold moveCount
      by_cases hmove : s.movesOn op
      · have hnext := passed_step h hmove
        rw [if_pos hmove]
        omega
      · rw [if_neg hmove, Nat.zero_add, ← stage_step_of_not h.sound (Ne.symm hop) hmove]
        exact hrun

/-- Where there is room for all draws, going forward leads to the end: the rank rises and is
    bounded. -/
theorem exists_run_finished {s : Session} (h : s.Sound) (hserves : s.machine.Serves s.config) :
    ∃ ops, .restart ∉ ops ∧ (s.run ops).2.phase = .finished := by
  -- On how far the rank can still rise.
  induction hn : 25 - s.stage.rank using Nat.strongRecOn generalizing s with
  | ind n ih =>
      by_cases hphase : s.phase = .finished
      · exact ⟨[], List.not_mem_nil, hphase⟩
      · have hmove := (movesOn_forward_iff h hphase).mpr (hasRoom_demand hserves)
        have hlt := rank_step_lt h hmove
        have hsound := (settles_step h s.forward).sound
        have hle := hsound.rank_le
        obtain ⟨hmachine, _, hconfig⟩ := (carried_step h s.forward).fixed
        obtain ⟨ops, hops, hend⟩ := ih _ (by omega) hsound (by rwa [hmachine, hconfig]) rfl
        refine ⟨s.forward :: ops, fun hmem => ?_, hend⟩
        obtain hop | hmem := List.mem_cons.mp hmem
        · exact ne_restart_of_movesOn hmove hop.symm
        · exact hops hmem

theorem new_finished_iff (machine : Machine) (catalog : Catalog) (config : Config)
    {ops : List Operation} (hops : .restart ∉ ops) :
    ((new machine catalog config).run ops).2.phase = .finished ↔
      (new machine catalog config).moveCount ops = 24 := by
  have hgenuine := Genuine.new machine catalog config
  have hpassed := passed_run hgenuine.orderly hops
  have hstart : (new machine catalog config).stage.passed = 0 := rfl
  rw [(hgenuine.run ops).orderly.finished_iff, hpassed, hstart, Nat.zero_add]

/-- A game moves forward, and it is stuck only for want of room. In every session that a run
    reaches, every move that is carried out leads to the next stage of the table and raises the
    rank, and no other operation but a restart leads to another stage. Before the end the move that
    `forward` names is carried out exactly if the machine has room for the cards that are to be
    drawn on the way, and without it no move is. So a run without a restart makes at most 25 moves,
    and some run leads to the end if there is room for the offers and the hand of the settings;
    from a new session the end is reached after exactly 24 moves. -/
theorem game_moves_forward {s : Session} (h : s.Reachable) :
    (∀ op, s.movesOn op → s.stage.next? = some (s.step op).2.stage ∧
      s.stage.rank < (s.step op).2.stage.rank ∧
      ∀ phase, op.phase? = some phase → s.phase = phase) ∧
    (∀ op, op ≠ .restart → ¬s.movesOn op → (s.step op).2.stage = s.stage) ∧
    (s.phase ≠ .finished → (s.movesOn s.forward ↔ s.machine.HasRoom s.demand)) ∧
    ((∃ op, s.movesOn op) → s.machine.HasRoom s.demand) ∧
    (∀ ops, .restart ∉ ops → s.moveCount ops ≤ 25) ∧
    (s.machine.Serves s.config → s.machine.HasRoom s.demand ∧
      ∃ ops, .restart ∉ ops ∧ (s.run ops).2.phase = .finished) ∧
    ∀ machine catalog config ops, .restart ∉ ops →
      (((new machine catalog config).run ops).2.phase = .finished ↔
        (new machine catalog config).moveCount ops = 24) := by
  have hs := h.sound
  have hmoves : ∀ op, s.movesOn op → s.stage.next? = some (s.step op).2.stage ∧
      s.stage.rank < (s.step op).2.stage.rank ∧
      ∀ phase, op.phase? = some phase → s.phase = phase := by
    intro op hmove
    obtain ⟨_, hreply⟩ := Bool.and_eq_true_iff.mp hmove
    exact ⟨stage_step hs hmove, rank_step_lt hs hmove, fun phase hop =>
      (carried_step hs op).in_phase hreply hop⟩
  have hbound : ∀ ops, .restart ∉ ops → s.moveCount ops ≤ 25 := by
    intro ops hops
    have hrank := rank_run hs hops
    have hle := (h.run ops).sound.rank_le
    omega
  exact ⟨hmoves, fun op => stage_step_of_not hs, movesOn_forward_iff hs,
    fun ⟨_, hmove⟩ => hasRoom_of_movesOn hs hmove, hbound,
    fun hserves => ⟨hasRoom_demand hserves, exists_run_finished hs hserves⟩,
    fun machine catalog config ops => new_finished_iff machine catalog config⟩

/-- A stored session in training, with no offer to choose from. -/
def withoutOffer : Session := { choosing with offer := none }

/-- It is not stuck: from training on the fourth turn it goes on to the action phase. -/
theorem withoutOffer_moves_forward :
    withoutOffer.Reachable ∧ withoutOffer.phase ≠ .finished ∧
      withoutOffer.machine.Serves withoutOffer.config ∧
      (withoutOffer.step withoutOffer.forward).2.stage = ⟨3, .action⟩ ∧
      (∀ ops, .restart ∉ ops → withoutOffer.moveCount ops ≤ 25) ∧
      ∃ ops, .restart ∉ ops ∧ (withoutOffer.run ops).2.phase = .finished := by
  have hrestored : restore .common .empty .standard withoutOffer.snapshot = .ok withoutOffer := rfl
  have hphase : withoutOffer.phase ≠ .finished := Phase.noConfusion
  have hserves : withoutOffer.machine.Serves withoutOffer.config :=
    ⟨by decide, by decide, by decide⟩
  have hreachable : withoutOffer.Reachable := Initial.reachable (.restored hrestored)
  obtain ⟨hmoves, _, hforward, _, hbound, hend, _⟩ := game_moves_forward hreachable
  obtain ⟨hroom, hfinished⟩ := hend hserves
  obtain ⟨hnext, _, _⟩ := hmoves withoutOffer.forward ((hforward hphase).mpr hroom)
  exact ⟨hreachable, hphase, hserves, (Option.some.inj hnext).symm, hbound, hfinished⟩

/-- A new session that is to offer as many cards as a number of 64 bits can ask for. -/
def overbooked : Session :=
  new .common twoCards { Config.standard with openingOffer := 18446744073709551615 }

/-- It is stuck: the game cannot begin, and no other move is carried out either. -/
theorem overbooked_is_stuck :
    overbooked.Reachable ∧ overbooked.phase = .start ∧ overbooked.forward = .startGame ∧
      (overbooked.step .startGame).1 = .stopped (.noRoom .uncountable) ∧
      ∀ op, ¬overbooked.movesOn op := by
  have hreachable : overbooked.Reachable := Initial.reachable (.new _ _ _)
  have hshort : overbooked.machine.cardShortage? overbooked.demand = some .uncountable :=
    Machine.cardShortage?_of_le (by decide)
  refine ⟨hreachable, rfl, rfl, ?_, fun op hmove => ?_⟩
  · obtain ⟨_, _, hroom, _⟩ | ⟨shortage, hfound, heq⟩ :=
      (leads_startGame hreachable.sound rfl).settle_cases overbooked .cards
    · exact nomatch hroom.symm.trans hshort
    · rw [step, heq, ← Option.some.inj (hshort.symm.trans hfound)]
  · exact nomatch (hasRoom_of_movesOn hreachable.sound hmove).symm.trans hshort

end Session

end CramSchool
